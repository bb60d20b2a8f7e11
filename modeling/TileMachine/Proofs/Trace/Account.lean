import TileMachine.Proofs.Machine.Safety
import TileMachine.Proofs.Text.Decimal
import TileMachine.Proofs.Trace.Effects

/-! The trace of a run says exactly what the instructions did: every step that does not fail
is told in the words of its operation, and none is told to have emptied the hands or a
tile. -/
namespace TileMachine

/-! ### Values told of -/

theorem Decimal.getLast?_ofNat (n : Nat) : (ofNat n).toList.getLast? ≠ some '-' := fun hlast =>
  absurd (isDigit_of_mem_ofNat (List.mem_of_getLast? hlast)) (by decide)

theorem Text.getLast?_append_ne {front back : List Char} {c : Char}
    (hfront : front.getLast? ≠ some c) (hback : back.getLast? ≠ some c) :
    (front ++ back).getLast? ≠ some c := by
  rw [List.getLast?_append, Ne, Option.or_eq_some_iff]
  rintro (h | ⟨-, h⟩)
  · exact hback h
  · exact hfront h

theorem Value.getLast?_text {v : Value} (h : v.Valid) : v.text.toList.getLast? ≠ some '-' := by
  cases v with
  | letter c =>
    intro hlast
    obtain rfl : c = '-' := by simpa [text] using hlast
    contradiction
  | int n =>
    cases n with
    | ofNat n => exact Decimal.getLast?_ofNat n
    | negSucc n =>
      have hne : (Decimal.ofNat (n + 1)).toList ≠ [] := by
        rw [Decimal.toList_ofNat]
        exact Nat.toDigits_ne_nil
      unfold text
      rw [Decimal.toList_ofInt_negSucc, ← List.singleton_append,
        List.getLast?_append_of_ne_nil _ hne]
      exact Decimal.getLast?_ofNat (n + 1)

namespace Trace
open Reference.State

theorem Change.getLast?_text {change : Change} (h : change.Every Value.Valid) :
    change.text.toList.getLast? ≠ some '-' := by
  unfold text
  cases change with
  | jump target =>
    rw [String.toList_append]
    exact Text.getLast?_append_ne (by decide) (Decimal.getLast?_ofNat target)
  | tile address v =>
    rw [String.toList_append, String.toList_append, String.toList_append]
    apply Text.getLast?_append_ne _ (Value.getLast?_text h)
    apply Text.getLast?_append_ne _ (by decide)
    exact Text.getLast?_append_ne (by decide) (Decimal.getLast?_ofNat address)
  | _ =>
    rw [String.toList_append]
    exact Text.getLast?_append_ne (by decide) (Value.getLast?_text h)

theorem Change.every_unless {P : Value → Prop} {known : Prop} [Decidable known] {change : Change}
    (h : change.Every P) : ∀ c ∈ if known then [] else [change], c.Every P := by
  split
  · simp
  · simpa using h

theorem every_of_account {s : Reference.State} {i : Instruction} {told : List Change}
    {P : Value → Prop} (hs : s.Every P) (hresult : ∀ n, s.result? i = some n → P (.int n))
    (h : s.account? i = some told) : ∀ change ∈ told, change.Every P := by
  have hholding {v : Value} (hv : P v) : ∀ change ∈ s.holding v, change.Every P :=
    Change.every_unless hv
  have hwriting (n : Nat) {v : Value} (hv : P v) : ∀ change ∈ s.writing n v, change.Every P :=
    Change.every_unless hv
  have hgoing (target : Nat) : ∀ change ∈ s.going target, change.Every P :=
    Change.every_unless trivial
  have hbump (a : Address) (h : (do
      let n ← s.target? a
      let r ← s.result? i
      return .tile n (.int r) :: s.holding (.int r)) = some told) :
      ∀ change ∈ told, change.Every P := by
    obtain ⟨n, -, hn⟩ := Option.bind_eq_some_iff.1 h
    obtain ⟨r, hr, ⟨⟩⟩ := Option.bind_eq_some_iff.1 hn
    exact List.forall_mem_cons.2 ⟨hresult r hr, hholding (hresult r hr)⟩
  unfold account? at h
  split at h
  next =>
    obtain rfl := Option.some.inj h
    intro change hchange
    obtain ⟨v, hv, rfl⟩ := List.mem_map.1 hchange
    exact hs.inbox v (List.mem_of_head? (Option.mem_toList.1 hv))
  next =>
    obtain ⟨v, hv, rfl⟩ := Option.map_eq_some_iff.1 h
    simpa [Change.Every] using hs.hands v hv
  next =>
    obtain ⟨v, hv, rfl⟩ := Option.map_eq_some_iff.1 h
    exact hholding (hs.content hv)
  next =>
    obtain ⟨n, -, hn⟩ := Option.bind_eq_some_iff.1 h
    obtain ⟨v, hv, ⟨⟩⟩ := Option.bind_eq_some_iff.1 hn
    exact hwriting n (hs.hands v hv)
  next =>
    obtain ⟨r, hr, rfl⟩ := Option.map_eq_some_iff.1 h
    exact hholding (hresult r hr)
  next =>
    obtain ⟨r, hr, rfl⟩ := Option.map_eq_some_iff.1 h
    exact hholding (hresult r hr)
  next a _ _ => exact hbump a h
  next a _ _ => exact hbump a h
  next =>
    obtain rfl := Option.some.inj h
    exact hgoing _
  next =>
    obtain ⟨v, -, rfl⟩ := Option.map_eq_some_iff.1 h
    exact hgoing _
  next =>
    obtain ⟨v, -, hv⟩ := Option.bind_eq_some_iff.1 h
    obtain ⟨x, -, ⟨⟩⟩ := Option.bind_eq_some_iff.1 hv
    exact hgoing _
  next => contradiction

/-! ### Steps -/

variable {s t : State}

def ending (step : Step) : List String :=
  if step = .halted then ["halt"] else []

def lineWith (i : Option Instruction) (remarks : List String) : String :=
  let line := padRight column ((i.map Instruction.text).getD "(end)") ++ " / ".intercalate remarks
  String.ofList (Text.trimEnd line.toList)

theorem remarks_of_succeeds {step : Step} (h : ∀ error, step ≠ .failed error) :
    remarks s t step = changes s t (step = .halted) ++ ending step := by
  cases step with
  | failed error => exact absurd rfl (h error)
  | proceed => simp [remarks, ending]
  | halted => simp [remarks, ending]

/-- No remark says that the hands or a tile have become empty. -/
structure NeverEmptied (remarks : List String) : Prop where
  hands : "hands=-" ∉ remarks
  tile : ∀ address, "tile " ++ Decimal.ofNat address ++ "=-" ∉ remarks

theorem neverEmptied_of_told {told : List Change} (h : ∀ change ∈ told, change.Every Value.Valid)
    (step : Step) : NeverEmptied (told.map Change.text ++ ending step) := by
  have hlast {text : String} (htext : text ∈ told.map Change.text ++ ending step) :
      text.toList.getLast? ≠ some '-' := by
    rcases List.mem_append.1 htext with hchange | hhalt
    · obtain ⟨change, hmem, rfl⟩ := List.mem_map.1 hchange
      exact Change.getLast?_text (h change hmem)
    · unfold ending at hhalt
      split at hhalt
      · rw [List.mem_singleton.1 hhalt]
        decide
      · contradiction
  refine ⟨fun hmem => hlast hmem (by decide), fun address hmem => hlast hmem ?_⟩
  rw [String.toList_append, List.getLast?_append_of_ne_nil _ (by decide)]
  rfl

theorem neverEmptied_of_error (error : RuntimeError) :
    NeverEmptied (remarks s t (.failed error)) := by
  have hhead {text : String} (htext : text ∈ remarks s t (.failed error)) :
      text.toList.head? = some 'e' := by
    rw [List.mem_singleton.1 htext, String.toList_append]
    rfl
  refine ⟨fun hmem => absurd (hhead hmem) (by decide), fun address hmem => ?_⟩
  have herror := hhead hmem
  rw [String.toList_append, String.toList_append] at herror
  cases herror

end Trace

namespace Execution

def remarks (e : Execution) : List String :=
  Trace.remarks e.state e.step.2.state e.step.1

/-- The trace lists these changes for the next step, and that it is the last one if it
is. -/
structure Tells (e : Execution) (told : List Trace.Change) : Prop where
  remarks : e.remarks = told.map Trace.Change.text ++ Trace.ending e.step.1
  line : e.traceLine = Trace.lineWith e.program.instructions[e.state.ip]?
    (told.map Trace.Change.text ++ Trace.ending e.step.1)

theorem tells_of_changes {e : Execution} {told : List Trace.Change}
    (hanswer : ∀ error, e.step.1 ≠ .failed error)
    (h : Trace.changes e.state e.step.2.state (e.step.1 = .halted) =
      told.map Trace.Change.text) : e.Tells told := by
  have hremarks : e.remarks = told.map Trace.Change.text ++ Trace.ending e.step.1 := by
    rw [remarks, Trace.remarks_of_succeeds hanswer, h]
  exact ⟨hremarks, congrArg (Trace.lineWith _) hremarks⟩

end Execution

namespace Machine
open Trace (NeverEmptied)

variable {m : Machine} {origin : Reference.State} {n : Nat} {e : Execution}

structure Accounts (m : Machine) (e : Execution) : Prop where
  instruction : ∀ i, m.program.instructions[e.state.ip]? = some i →
    ∃ told, e.state.view.account? i = some told ∧ e.Tells told
  ends : m.program.instructions[e.state.ip]? = none → e.step.1 = .halted ∧ e.Tells []

theorem Open.accounts (h : m.Open n e) (hlength : m.program.length < Trace.positions)
    (hanswer : ∀ error, e.step.1 ≠ .failed error) : m.Accounts e := by
  -- A halt that leaves the state as it is has nothing to tell.
  have hsame (hhalted : e.step.1 = .halted) (hstate : e.step.2.state = e.state) : e.Tells [] := by
    apply Execution.tells_of_changes hanswer
    rw [hstate, hhalted]
    exact Trace.changes_self e.state
  refine ⟨fun i hi => ?_, fun hnone => ?_⟩
  · rcases (h.nextStep hi).succeeds hanswer with ⟨⟨hop, hinbox⟩, hhalted, hstate⟩ | ⟨hmoves, hstep⟩
    · refine ⟨[], ?_, hsame hhalted hstate⟩
      simp [Reference.State.account?, hop, hinbox]
    · have hip : e.state.ip < m.program.length := (Array.getElem?_eq_some_iff.1 hi).1
      have hposition : e.state.ip + 1 < Trace.positions := Nat.lt_of_le_of_lt hip hlength
      have hmoved : decide (e.step.1 = .halted) = true → e.step.2.state.ip ≠ e.state.ip := by
        rw [decide_eq_true_iff, hstep]
        intro hhalted hstays
        rw [hstays, if_pos hip] at hhalted
        contradiction
      obtain ⟨told, htold, hchanges⟩ := Trace.changes_of_moves hposition hmoves hmoved
      exact ⟨told, htold, Execution.tells_of_changes hanswer hchanges⟩
  · have hstep : e.step = e.halt := by
      rw [Execution.step_open h.status, Execution.advance_at_end (h.program ▸ hnone)]
    have hhalted : e.step.1 = .halted := congrArg Prod.fst hstep
    exact ⟨hhalted, hsame hhalted (congrArg (·.2.state) hstep)⟩

theorem Answers.inRange {next : Step × Execution} {i : Instruction} (h : m.Answers n e next)
    (hi : m.program.instructions[e.state.ip]? = some i)
    (hanswer : ∀ error, next.1 ≠ .failed error) :
    ∀ k, e.state.view.result? i = some k → Decimal.InRange k := by
  cases h with
  | ends hnone => rw [hi] at hnone; contradiction
  | limit => exact absurd rfl (hanswer _)
  | fault => exact absurd rfl (hanswer _)
  | stop hj _ hhalts =>
    rw [hi, Option.some.injEq] at hj
    simp [Reference.State.result?, hj, hhalts.1]
  | action hj _ _ _ hrange =>
    rw [hi, Option.some.injEq] at hj
    exact hj ▸ hrange

theorem Follows.neverEmptied (h : m.Follows origin n e) (hopen : e.status.isTerminal = false)
    (hlength : m.program.length < Trace.positions) :
    NeverEmptied e.remarks := by
  obtain ⟨hopen, -⟩ := h.open_or_terminal.resolve_left (by simp [hopen])
  by_cases hfails : ∃ error, e.step.1 = .failed error
  · obtain ⟨error, herror⟩ := hfails
    rw [Execution.remarks, herror]
    exact Trace.neverEmptied_of_error error
  · have hanswer : ∀ error, e.step.1 ≠ .failed error := fun error herror => hfails ⟨error, herror⟩
    have haccounts := hopen.accounts hlength hanswer
    cases hi : m.program.instructions[e.state.ip]? with
    | none =>
      rw [(haccounts.ends hi).2.remarks]
      exact Trace.neverEmptied_of_told (by simp) _
    | some i =>
      obtain ⟨told, htold, htells⟩ := haccounts.instruction i hi
      have hresult := hopen.answers.inRange hi hanswer
      rw [htells.remarks]
      exact Trace.neverEmptied_of_told (Trace.every_of_account h.valid hresult htold) _

theorem open_after {inbox : List Value} {tiles : Tiles}
    (h : ((m.start inbox tiles).after n).status.isTerminal = false) :
    m.Open n ((m.start inbox tiles).after n) := by
  have hprogram := (m.start inbox tiles).after_program n
  have hsteps := Execution.steps_after_of_open h
  exact ⟨hprogram.1, hprogram.2, hsteps.trans (Nat.zero_add n), h⟩

theorem eq_empty_of_open {inbox : List Value} {tiles : Tiles}
    (h : ((m.start inbox tiles).after n).status.isTerminal = false)
    (hnone : m.program.instructions[((m.start inbox tiles).after n).state.ip]? = none) :
    m.program.instructions = #[] := by
  rw [Array.getElem?_eq_none_iff] at hnone
  cases n with
  | zero => exact Array.eq_empty_of_size_eq_zero (Nat.le_zero.1 hnone)
  | succ n =>
    have hproceed : ((m.start inbox tiles).after n).step.1 = .proceed := by
      rw [Execution.step_answer, Status.answer_eq_proceed_iff]
      exact h
    have hip := Execution.ip_lt_of_proceed hproceed
    rw [(((m.start inbox tiles).after n).step_program).1, (Execution.after_program _ n).1] at hip
    exact absurd hip (Nat.not_lt.2 hnone)

/-- The trace says exactly what the instructions did. For every step of a run that does not
fail it lists what there is to tell of the instruction, and the halt after that; only an
empty program has a step at its end. On valid values no step at all, a failing one included,
is told to have emptied the hands or a tile. Positions have 64 bits. -/
theorem accounts_step (m : Machine) (hlength : m.program.length < Trace.positions)
    (inbox : List Value) (tiles : Tiles) (n : Nat) :
    let e := (m.start inbox tiles).after n
    e.status.isTerminal = false →
      ((∀ error, e.step.1 ≠ .failed error) → m.Accounts e) ∧
      (m.program.instructions[e.state.ip]? = none → m.program.instructions = #[]) ∧
      ((∀ v ∈ inbox, v.Valid) → tiles.Valid → NeverEmptied e.remarks) := by
  intro e hopen
  refine ⟨(open_after hopen).accounts hlength, eq_empty_of_open hopen, fun hinbox htiles => ?_⟩
  exact ((m.follows_start hinbox htiles).after n).neverEmptied hopen hlength

theorem accounts_step_countdown :
    let m : Machine :=
      ⟨⟨#[⟨.inbox, .nothing⟩, ⟨.jump, .label "down" 2⟩, ⟨.bumpdn, .tile (.indirect 1)⟩],
        (∅ : Labels) |>.insert "down" 2, #[]⟩, some 3, by decide +kernel⟩
    let inbox : List Value := [.letter 'T']
    let tiles : Tiles := (∅ : Tiles) |>.insert 1 (some (.int 12)) |>.insert 12 (some (.int 0))
    let e := (m.start inbox tiles).after 2
    e.state.view.account? ⟨.bumpdn, .tile (.indirect 1)⟩ =
        some [.tile 12 (.int (-1)), .hands (.int (-1))] ∧
      e.Tells [.tile 12 (.int (-1)), .hands (.int (-1))] ∧ e.step.1 = .halted ∧
      NeverEmptied e.remarks := by
  intro m inbox tiles e
  have hinbox : ∀ v ∈ inbox, v.Valid := by decide
  have htiles : tiles.Valid := (Tiles.valid_empty.insert 1 (by decide)).insert 12 (by decide)
  have hhalted : e.step.1 = .halted := by decide +kernel
  obtain ⟨haccounts, -, hfull⟩ := m.accounts_step (by decide) inbox tiles 2 (by decide +kernel)
  have hanswer : ∀ error, e.step.1 ≠ .failed error := by
    rw [hhalted]
    simp
  obtain ⟨told, htold, htells⟩ :=
    (haccounts hanswer).instruction ⟨.bumpdn, .tile (.indirect 1)⟩ (by decide +kernel)
  have haccount : e.state.view.account? ⟨.bumpdn, .tile (.indirect 1)⟩ =
      some [.tile 12 (.int (-1)), .hands (.int (-1))] := by decide +kernel
  obtain rfl := Option.some.inj (htold.symm.trans haccount)
  exact ⟨haccount, htells, hhalted, hfull hinbox htiles⟩

end Machine
end TileMachine
