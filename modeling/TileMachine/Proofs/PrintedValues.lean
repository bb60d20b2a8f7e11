import TileMachine.Proofs.InputList
import TileMachine.Proofs.Machine.Conservation
import TileMachine.Proofs.Machine.Runs
import TileMachine.Source.Assembly

/-! What a run prints can be given to another run. The values of an outbox stand between
spaces; with commas in their place the text is an inbox, and it is read as the same
values. So the printed text tells the outbox. -/
namespace TileMachine

def Text.commasForSpaces (text : String) : String :=
  String.ofList (text.toList.map fun c => if c = ' ' then ',' else c)

theorem Text.commasForSpaces_append (front back : String) :
    commasForSpaces (front ++ back) = commasForSpaces front ++ commasForSpaces back := by
  simp only [commasForSpaces, String.toList_append, List.map_append, String.ofList_append]

theorem Text.commasForSpaces_eq_self {text : String} (h : ' ' ∉ text.toList) :
    commasForSpaces text = text := by
  have hsame : text.toList.map (fun c => if c = ' ' then ',' else c) = text.toList.map id := by
    apply List.map_congr_left
    intro c hc
    apply if_neg
    rintro rfl
    exact h hc
  rw [commasForSpaces, hsame, List.map_id, String.ofList_toList]

theorem Text.commasForSpaces_intercalate {texts : List String}
    (h : ∀ text ∈ texts, ' ' ∉ text.toList) :
    commasForSpaces (" ".intercalate texts) = ",".intercalate texts := by
  induction texts with
  | nil => rfl
  | cons text rest ih =>
    rw [List.forall_mem_cons] at h
    have hspace : commasForSpaces " " = "," := by decide
    cases rest with
    | nil => simpa using commasForSpaces_eq_self h.1
    | cons next rest =>
      rw [String.intercalate_cons_cons, String.intercalate_cons_cons, commasForSpaces_append,
        commasForSpaces_append, hspace, commasForSpaces_eq_self h.1, ih h.2]

namespace Machine

/-- The outbox at the end of a run whose program, inbox and floor are read from texts. -/
inductive Delivered : List Value → Prop where
  | run {source inboxText tilesText : String} {m : Machine} {inbox : List Value} {tiles : Tiles}
      {patience : Nat} {out : List Value} : Program.parse source = .ok m.program →
      Value.parseList inboxText = .ok inbox → Tiles.parse tilesText = .ok tiles →
      m.run? patience inbox tiles = some (.ok out) → Delivered out

variable {m : Machine} {inbox : List Value} {tiles : Tiles} {patience : Nat} {out : List Value}

theorem valid_of_run? (hinbox : ∀ v ∈ inbox, v.Valid) (htiles : tiles.Valid)
    (h : m.run? patience inbox tiles = some (.ok out)) : ∀ v ∈ out, v.Valid := by
  rw [run?_eq_result?, Execution.result?_eq_ok_iff] at h
  rw [← h.2]
  exact (m.conserved_after hinbox htiles (m.calls patience)).valid.outbox

theorem Delivered.valid (h : Delivered out) : ∀ v ∈ out, v.Valid := by
  cases h with
  | run _ hinbox htiles hrun =>
    exact valid_of_run? (Value.valid_of_parseList hinbox) (Tiles.valid_of_parse htiles) hrun

end Machine

namespace Value

theorem parseList_commasForSpaces_join {values : List Value} (h : ∀ v ∈ values, v.Valid) :
    parseList (Text.commasForSpaces (join values)) = .ok values := by
  have hspace : ∀ item ∈ values.map text, ' ' ∉ item.toList := by
    intro item hitem hmem
    obtain ⟨v, hv, rfl⟩ := List.mem_map.1 hitem
    have hblank := (mem_text (h v hv) hmem).1
    contradiction
  rw [join, Text.commasForSpaces_intercalate hspace, parseList_commas h]

/-- Printed values are fed back without loss. Valid values that are written with commas are
read as themselves, and so is what a run on texts has delivered, printed and with commas for
the spaces. No two outboxes of such runs are printed alike. -/
theorem parseList_printed :
    (∀ values : List Value, (∀ v ∈ values, v.Valid) →
      parseList (",".intercalate (values.map text)) = .ok values) ∧
    (∀ out, Machine.Delivered out → parseList (Text.commasForSpaces (join out)) = .ok out) ∧
    ∀ out out', Machine.Delivered out → Machine.Delivered out' → join out = join out' →
      out = out' := by
  refine ⟨fun _ => parseList_commas, fun _ h => parseList_commasForSpaces_join h.valid,
    fun out out' h h' hjoin => ?_⟩
  have hread : Except.ok out = parseList (Text.commasForSpaces (join out')) := by
    rw [← hjoin, parseList_commasForSpaces_join h.valid]
  rw [parseList_commasForSpaces_join h'.valid] at hread
  exact Except.ok.inj hread

theorem parseList_printed_least :
    let out : List Value := [.int (-9223372036854775808), .letter 'Q', .int 0]
    Machine.Delivered out ∧ join out = "-9223372036854775808 Q 0" ∧
      parseList (Text.commasForSpaces (join out)) = .ok out ∧
      parseList "-9223372036854775808,Q,0" = .ok out := by
  intro out
  let m : Machine :=
    ⟨⟨#[⟨.inbox, .nothing⟩, ⟨.add, .tile (.direct 1)⟩, ⟨.outbox, .nothing⟩, ⟨.inbox, .nothing⟩,
      ⟨.outbox, .nothing⟩, ⟨.jump, .label "up" 0⟩], (∅ : Labels) |>.insert "up" 0,
      #[2, 3, 4, 5, 6, 7]⟩, none, by decide +kernel⟩
  have hdelivered : Machine.Delivered out := by
    have hparse : Program.parse
        "up:\n  inbox\n  add 1\n  outbox\n  inbox\n  outbox\n  jump up\n" = .ok m.program :=
      toOption_eq_some.1 (by decide +kernel)
    have hinbox : parseList " -9223372036854775807 ,q,+01" =
        .ok [.int (-9223372036854775807), .letter 'Q', .int 1] :=
      toOption_eq_some.1 (by decide +kernel)
    have htiles : Tiles.parse ",-1" = .ok (.ofItems [none, some (.int (-1))]) :=
      toOption_eq_some.1 (by decide +kernel)
    have hrun : m.run? 10 [.int (-9223372036854775807), .letter 'Q', .int 1]
        (.ofItems [none, some (.int (-1))]) = some (.ok out) := by decide +kernel
    exact .run hparse hinbox htiles hrun
  have hvalid : ∀ v ∈ out, v.Valid := by decide
  obtain ⟨hcommas, hprinted, -⟩ := parseList_printed
  exact ⟨hdelivered, by decide, hprinted out hdelivered, hcommas out hvalid⟩

end Value
end TileMachine
