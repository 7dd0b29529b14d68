import DevEnv.Graph
import DevEnv.Proofs.Json.Records

/-! Build graphs read back from their text. Each part of a graph is, so the whole graph is. -/
namespace DevEnv.Graph
open Json (Faithful legible_record slots?_record_bind defaulted_absent_bind ofString_ne_null faithful_text faithful_port
  faithful_count)

theorem Mount.faithful : Faithful Mount.toJson Mount.ofJson? where
  legible m := legible_record (by simp [faithful_text.legible])
  read m := by
    rw [Mount.ofJson?, Mount.toJson, slots?_record_bind []]
    · simp [↓faithful_text.required_bind]
    · rfl
    · decide

theorem Jupyter.faithful : Faithful Jupyter.toJson Jupyter.ofJson? where
  legible j := legible_record (by simp [faithful_text.legible, faithful_port.legible])
  read j := by
    rw [Jupyter.ofJson?, Jupyter.toJson, slots?_record_bind []]
    · simp [↓faithful_text.defaulted_bind, ↓faithful_port.defaulted_bind]
    · rfl
    · decide

/-- The listening address is left out where there is none, and then its slot is empty. -/
theorem Exposure.faithful : Faithful Exposure.toJson Exposure.ofJson? where
  legible e := by
    refine legible_record ?_
    cases e.address <;> simp [faithful_text.legible, faithful_port.legible]
  read e := by
    obtain ⟨containerPort, hostPort, service, address⟩ := e
    cases address with
    | none =>
      rw [Exposure.ofJson?, Exposure.toJson, slots?_record_bind ["listening_addr"]]
      · simp [↓faithful_port.required_bind, ↓faithful_port.defaulted_bind, ↓faithful_text.defaulted_bind,
          ↓defaulted_absent_bind]
      · rfl
      · decide
    | some a =>
      rw [Exposure.ofJson?, Exposure.toJson, slots?_record_bind []]
      · simp [↓faithful_port.required_bind, ↓faithful_port.defaulted_bind, ↓faithful_text.defaulted_bind,
          ↓faithful_text.defaulted_some_bind ofString_ne_null]
      · rfl
      · decide

/-- RStudio is an empty record where it is declared. -/
theorem faithful_rstudio : Faithful (fun r : Bool => if r then .object [] else .null) rstudioOfJson? where
  legible
    | true => .object nofun nofun
    | false => .null
  read
    | true => rfl
    | false => rfl

theorem faithful : Faithful toJson ofJson? where
  legible g := by
    refine legible_record ?_
    simp [faithful_rstudio.legible, (faithful_text.option ofString_ne_null).legible, faithful_text.list.legible,
      Mount.faithful.list.legible, (Jupyter.faithful.option nofun).legible, Exposure.faithful.list.legible,
      (faithful_count.option nofun).legible]
  read g := by
    rw [ofJson?, toJson, slots?_record_bind []]
    · simp [↓faithful_rstudio.defaulted_bind, ↓(faithful_text.option ofString_ne_null).defaulted_bind,
        ↓faithful_text.list.defaulted_bind, ↓Mount.faithful.list.defaulted_bind,
        ↓(Jupyter.faithful.option nofun).defaulted_bind, ↓Exposure.faithful.list.defaulted_bind,
        ↓(faithful_count.option nofun).defaulted_bind]
    · rfl
    · decide

theorem read?_written (g : Graph) : (Json.read? g.written).bind ofJson? = some g := by
  rw [written, Json.read?_compactText (faithful.legible g), Option.bind_some, faithful.read]

end DevEnv.Graph
