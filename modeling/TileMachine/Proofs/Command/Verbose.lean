import TileMachine.Proofs.Command.Endings
import TileMachine.Proofs.InputList
import TileMachine.Proofs.Machine.Histories
import TileMachine.Proofs.Trace.Lines

/-! A run with a trace and one without. They are carried out by different loops, and yet
they end alike: with the same exit code and the same complaints. The trace has one line
for each step, between a line for the inbox and, if the run succeeds, one for the outbox. -/
namespace TileMachine
open Execution Text

theorem Trace.describeAll_frames (e : Execution) (n : Nat) :
    Trace.describeAll e.program (e.frames n) =
      (List.range n).map fun k => (e.after k).traceLine := by
  unfold Trace.describeAll frames
  rw [List.map_map]
  apply List.map_congr_left
  intro k _
  unfold traceLine
  rw [(e.after_program k).1]
  rfl

namespace Command

variable {files : Files} {path : String} {inbox tiles : Option String} {maxSteps : Nat}
variable {source : String} {m : Machine} {values : List Value} {floor : Tiles}

/-! ### What is run -/

def loadRun (files : Files) (path : String) (inbox tiles : Option String) (maxSteps : Nat) :
    Except Report (String × Machine × List Value × Tiles) := do
  let (source, program) ← loadProgram files path
  let values ← loadInbox inbox
  let floor ← loadTiles tiles
  let machine ← loadMachine program (limitOf maxSteps)
  return (source, machine, values, floor)

theorem answerRun_eq (patience : Nat) (verbose : Bool) :
    answerRun files patience path inbox tiles verbose maxSteps =
      (loadRun files path inbox tiles maxSteps).map fun (source, m, values, floor) =>
        if verbose then runVerbose patience source m values floor
        else runPlain patience source m values floor := by
  unfold answerRun loadRun
  cases loadProgram files path with
  | error report => rfl
  | ok loaded =>
    cases loadInbox inbox with
    | error report => rfl
    | ok values =>
      cases loadTiles tiles with
      | error report => rfl
      | ok floor =>
        dsimp only [bind, Except.bind]
        cases loadMachine loaded.2 (limitOf maxSteps) with
        | error report => rfl
        | ok m => cases verbose <;> rfl

theorem respond?_of_refusal {report : Report}
    (h : loadRun files path inbox tiles maxSteps = .error report) (verbose : Bool)
    (patience : Nat) :
    respond? files patience (.run path inbox tiles verbose maxSteps) = some report := by
  rw [respond?, answerRun_eq, h]
  rfl

theorem respond?_of_loadRun
    (h : loadRun files path inbox tiles maxSteps = .ok (source, m, values, floor))
    (verbose : Bool) (patience : Nat) :
    respond? files patience (.run path inbox tiles verbose maxSteps) =
      if verbose then runVerbose patience source m values floor
      else runPlain patience source m values floor := by
  rw [respond?, answerRun_eq, h]
  rfl

theorem loadMachine_eq_ok_iff {program : Program} {limit : Option Nat} :
    loadMachine program limit = .ok m ↔ m.program = program ∧ m.limit = limit := by
  unfold loadMachine
  constructor
  · intro h
    split at h
    next =>
      cases h
      exact ⟨rfl, rfl⟩
    next => cases h
  · rintro ⟨rfl, rfl⟩
    split
    next => rfl
    next hnot => exact absurd m.valid hnot

theorem loadRun_eq_ok_iff :
    loadRun files path inbox tiles maxSteps = .ok (source, m, values, floor) ↔
      loadProgram files path = .ok (source, m.program) ∧ m.limit = limitOf maxSteps ∧
        loadInbox inbox = .ok values ∧ loadTiles tiles = .ok floor := by
  unfold loadRun
  constructor
  · intro h
    obtain ⟨loaded, hprogram, h⟩ := bind_eq_ok.1 h
    obtain ⟨_, hinbox, h⟩ := bind_eq_ok.1 h
    obtain ⟨_, htiles, h⟩ := bind_eq_ok.1 h
    obtain ⟨_, hmachine, h⟩ := bind_eq_ok.1 h
    cases h
    obtain ⟨hloaded, hlimit⟩ := loadMachine_eq_ok_iff.1 hmachine
    rw [hloaded]
    exact ⟨hprogram, hlimit, hinbox, htiles⟩
  · rintro ⟨hprogram, hlimit, hinbox, htiles⟩
    have hmachine : loadMachine m.program (limitOf maxSteps) = .ok m :=
      loadMachine_eq_ok_iff.2 ⟨rfl, hlimit⟩
    rw [hprogram, hinbox, htiles]
    dsimp only [bind, Except.bind]
    rw [hmachine]
    rfl

theorem blamesInput_loadRun : BlamesInput (loadRun files path inbox tiles maxSteps) := by
  unfold loadRun
  apply blamesInput_bind blamesInput_loadProgram
  intro ⟨source, program⟩ hprogram
  apply blamesInput_bind blamesInput_loadInbox
  intro values _
  apply blamesInput_bind blamesInput_loadTiles
  intro floor _ report h
  obtain ⟨m, hm⟩ := loadMachine_of_loadProgram hprogram (limitOf maxSteps)
  rw [hm] at h
  cases h

theorem valid_of_loadInbox (h : loadInbox inbox = .ok values) : ∀ v ∈ values, v.Valid :=
  Value.valid_of_parseList (mapError_eq_ok.1 h)

theorem valid_of_loadTiles (h : loadTiles tiles = .ok floor) : floor.Valid := by
  cases tiles with
  | none =>
    cases h
    exact Tiles.valid_empty
  | some text => exact Tiles.valid_of_parse (mapError_eq_ok.1 h)

/-! ### What is reported -/

def closing (source : String) (m : Machine) (printed : List String) (mark : String)
    (last : Execution) : Report :=
  match last.status with
  | .failed error => failedRun source m.program (unlines printed) error
  | _ =>
    { ending := .success, output := unlines (printed ++ [mark ++ Value.join last.outbox]) }

def traced (run : Execution) (values : List Value) (n : Nat) : List String :=
  ("< " ++ Value.join values) :: (List.range n).map fun k => (run.after k).traceLine

section Ends
variable {n patience : Nat} (h : (m.start values floor).EndsAfter n)
  (hle : n ≤ m.calls patience)
include h hle

theorem runPlain_of_endsAfter : runPlain patience source m values floor =
    some (closing source m [] "" ((m.start values floor).after n)) := by
  have hended := h.ended
  unfold runPlain closing
  rw [Machine.run?_eq_result?, after_eq_of_le hended hle, result?]
  generalize (m.start values floor).after n = last at hended
  cases hstatus : last.status with
  | ready | running =>
    rw [hstatus] at hended
    contradiction
  | halted => simp
  | failed error => rfl

theorem runVerbose_of_endsAfter : runVerbose patience source m values floor =
    some (closing source m (traced (m.start values floor) values n) "> "
      ((m.start values floor).after n)) := by
  have hended := h.ended
  have hlines := Trace.describeAll_frames (m.start values floor) n
  unfold runVerbose closing traced history?
  rw [historyFrom?_eq [] rfl h hle, ← hlines]
  generalize (m.start values floor).after n = last at hended
  cases hstatus : last.status with
  | ready | running =>
    rw [hstatus] at hended
    contradiction
  | halted => rfl
  | failed error => rfl

end Ends

theorem isSome_run_iff (verbose : Bool) (patience : Nat) :
    (if verbose then runVerbose patience source m values floor
      else runPlain patience source m values floor).isSome = true ↔
      ∃ n ≤ m.calls patience, (m.start values floor).EndsAfter n := by
  rw [← isTerminal_after_iff]
  cases hended : ((m.start values floor).after (m.calls patience)).status.isTerminal with
  | true =>
    obtain ⟨n, hle, hn⟩ := exists_endsAfter hended
    rw [runPlain_of_endsAfter hn hle, runVerbose_of_endsAfter hn hle]
    cases verbose <;> simp
  | false =>
    have hplain : runPlain patience source m values floor = none := by
      unfold runPlain
      rw [Machine.run?_eq_result?, Option.map_eq_none_iff, ← Option.isNone_iff_eq_none,
        ← Option.not_isSome, isSome_result?, hended]
      rfl
    have hverbose : runVerbose patience source m values floor = none := by
      unfold runVerbose history?
      rw [historyFrom?_eq_none [] hended]
      rfl
    rw [hplain, hverbose]
    cases verbose <;> simp

/-- How the reports of a run that ends with the last of `n` steps relate. -/
structure Agree (run : Execution) (values : List Value) (n : Nat) (plain verbose : Report) :
    Prop where
  exitCode : verbose.exitCode = plain.exitCode
  errors : ∀ words, verbose.errorOutput words = plain.errorOutput words
  halted : (run.after n).status = .halted → plain.exitCode = 0 ∧
    plain.output = unlines [Value.join (run.after n).outbox] ∧
    verbose.output = unlines (traced run values n ++ ["> " ++ Value.join (run.after n).outbox])
  failed : ∀ error, (run.after n).status = .failed error → plain.exitCode = 3 ∧
    plain.output = "" ∧ verbose.output = unlines (traced run values n)

theorem agree_closing (source : String) (m : Machine) (run : Execution) (values : List Value)
    (n : Nat) : Agree run values n (closing source m [] "" (run.after n))
      (closing source m (traced run values n) "> " (run.after n)) := by
  unfold closing
  cases hstatus : (run.after n).status with
  | failed error => exact ⟨rfl, fun _ => rfl, by simp [hstatus], fun _ _ => ⟨rfl, rfl, rfl⟩⟩
  | _ => exact ⟨rfl, fun _ => rfl, fun _ => ⟨rfl, by simp, rfl⟩, by simp [hstatus]⟩

structure Lined (run : Execution) (values : List Value) (n : Nat) : Prop where
  inbox : OneLine ("< " ++ Value.join values)
  outbox : OneLine ("> " ++ Value.join (run.after n).outbox)
  steps : ∀ k < n, OneLine (run.after k).traceLine ∧
    ∀ c, (run.after k).traceLine.toList.head? = some c → c ≠ '<' ∧ c ≠ '>'

theorem lined_of_loadRun {n : Nat}
    (h : loadRun files path inbox tiles maxSteps = .ok (source, m, values, floor))
    (hends : (m.start values floor).EndsAfter n) : Lined (m.start values floor) values n := by
  obtain ⟨hprogram, -, hinbox, htiles⟩ := loadRun_eq_ok_iff.1 h
  have hvalues := valid_of_loadInbox hinbox
  have hfollows := m.follows_start hvalues (valid_of_loadTiles htiles)
  have hprintable := Program.printable_of_parse (parse_of_loadProgram hprogram)
  refine ⟨oneLine_append.2 ⟨by decide, Value.oneLine_join hvalues⟩,
    oneLine_append.2 ⟨by decide, Value.oneLine_join (hfollows.after n).valid.outbox⟩,
    fun k hk => ⟨?_, fun c hc => ?_⟩⟩
  · exact (hfollows.after k).oneLine_traceLine (hends.going k hk) fun _ => hprintable.oneLine_name
  · exact head?_traceLine hc

/-- A run with a trace and one without agree. What cannot be loaded is refused by both in
the same way, with nothing printed. Otherwise both give a report exactly if the run ends in
time, and the two reports have the same exit code and the same complaints. The one without
a trace prints the outbox if the run succeeds. The other prints the inbox, one line for
each step, and under the same condition the same outbox. -/
theorem agree_of_run (files : Files) (path : String) (inbox tiles : Option String)
    (maxSteps : Nat) :
    let answer (verbose : Bool) (patience : Nat) :=
      Command.respond? files patience (.run path inbox tiles verbose maxSteps)
    let loaded := loadRun files path inbox tiles maxSteps
    (∀ report, loaded = .error report → report.exitCode = 1 ∧ report.output = "" ∧
      ∀ verbose patience, answer verbose patience = some report) ∧
    ∀ source m values floor, loaded = .ok (source, m, values, floor) →
      let run := m.start values floor
      (∀ verbose patience, (answer verbose patience).isSome = true ↔
        ∃ n ≤ m.calls patience, run.EndsAfter n) ∧
      ∀ n, run.EndsAfter n → Lined run values n ∧ ∃ plain verbose,
        Agree run values n plain verbose ∧ ∀ patience, n ≤ m.calls patience →
          answer false patience = some plain ∧ answer true patience = some verbose := by
  intro answer loaded
  refine ⟨fun report hreport => ?_, fun source m values floor hloaded => ⟨?_, fun n hn => ?_⟩⟩
  · obtain ⟨complaint, rfl⟩ := blamesInput_loadRun report hreport
    exact ⟨rfl, rfl, respond?_of_refusal hreport⟩
  · intro verbose patience
    simp only [answer, respond?_of_loadRun hloaded]
    exact isSome_run_iff verbose patience
  · refine ⟨lined_of_loadRun hloaded hn, _, _, agree_closing source m _ values n, ?_⟩
    intro patience hle
    simp only [answer, respond?_of_loadRun hloaded]
    exact ⟨runPlain_of_endsAfter hn hle, runVerbose_of_endsAfter hn hle⟩

theorem agree_of_run_copy :
    let source := "top:\n  inbox\n  outbox\n  jump top\n"
    let files : Files := fun _ => .ok source.toUTF8
    let m : Machine :=
      ⟨⟨#[⟨.inbox, .nothing⟩, ⟨.outbox, .nothing⟩, ⟨.jump, .label "top" 0⟩],
        (∅ : Labels) |>.insert "top" 0, #[2, 3, 4]⟩, none, by decide +kernel⟩
    let values : List Value := [.letter 'A', .int (-3)]
    let run := m.start values ∅
    loadRun files "copy.hrm" (some "a, -3") none 0 = .ok (source, m, values, ∅) ∧
      run.EndsAfter 7 ∧ Lined run values 7 ∧ ∃ plain verbose,
        Command.respond? files 7 (.run "copy.hrm" (some "a, -3") none false 0) = some plain ∧
        Command.respond? files 7 (.run "copy.hrm" (some "a, -3") none true 0) = some verbose ∧
        Agree run values 7 plain verbose ∧ plain.output = "A -3\n" := by
  intro source files m values run
  have hloaded :
      loadRun files "copy.hrm" (some "a, -3") none 0 = .ok (source, m, values, ∅) := by
    refine loadRun_eq_ok_iff.2 ⟨?_, rfl, ?_, rfl⟩
    · exact loadProgram_toUTF8 rfl (toOption_eq_some.1 (by decide +kernel))
    · exact toOption_eq_some.1 (by decide +kernel)
  have hends : run.EndsAfter 7 := ⟨by decide +kernel, by decide +kernel⟩
  have h := (agree_of_run files "copy.hrm" (some "a, -3") none 0).2 source m values ∅ hloaded
  obtain ⟨hlined, plain, verbose, hagree, hanswers⟩ := h.2 7 hends
  obtain ⟨hplain, hverbose⟩ := hanswers 7 (Nat.le_refl 7)
  refine ⟨hloaded, hends, hlined, plain, verbose, hplain, hverbose, hagree, ?_⟩
  rw [(hagree.halted (by decide +kernel)).2.1]
  decide +kernel

end Command
end TileMachine
