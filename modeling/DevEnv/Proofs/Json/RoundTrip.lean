import DevEnv.Context
import DevEnv.Gpu.Request
import DevEnv.Proofs.Json.Records
import DevEnv.Runtime.Call

/-! The records of this library read back from JSON. Each is as faithful as its fields; fields that are left out take
their defaults, and the facts of a build are read out of the environment that they were merged into. -/
namespace DevEnv
open Json (Faithful Slot legible_record slots?_record_bind slots?_record_lookup_bind defaulted_absent_bind
  ofString_ne_null faithful_text faithful_port faithful_size faithful_flag faithful_count faithful_texts)

theorem Identifier.faithful : Faithful toJson ofJson? where
  legible i := faithful_text.legible i.text
  read i := by rw [toJson, ofJson?, faithful_text.read, Option.map_some]

theorem Status.faithful : Faithful toJson ofJson? :=
  Json.faithful_word fun s => show Status.named? s.name = some s by cases s <;> rfl

theorem Runner.faithful : Faithful toJson ofJson? :=
  Json.faithful_word fun r => show Runner.named? r.name = some r by cases r <;> rfl

section Views

theorem Dependency.faithful : Faithful toJson ofJson? where
  legible d := legible_record (by simp [faithful_text.list.legible])
  read d := by
    rw [ofJson?, toJson, slots?_record_bind []]
    · simp [↓faithful_text.list.required_bind]
    · rfl
    · decide

theorem Manifest.legible (m : Manifest) : ∀ f ∈ m.members, f.2.Legible := by
  simp [members, faithful_flag.legible, (faithful_text.option ofString_ne_null).legible, Dependency.faithful.legible]

theorem Manifest.faithful : Faithful toJson ofJson? where
  legible m := legible_record m.legible
  read m := by
    rw [ofJson?, toJson, members, slots?_record_bind []]
    · simp [↓faithful_flag.required_bind, ↓faithful_text.optional_bind ofString_ne_null,
        ↓Dependency.faithful.required_bind]
    · rfl
    · decide

/-- The facts of a build hold no more than can be kept. -/
theorem Manifest.kept (m : Manifest) :
    m.members.all (fun f => Json.isKept (Json.depthLimit - 1) f.2) = true := by
  have text (o : Option String) {limit : Nat} : Json.isKept limit (Json.ofOption Json.ofString o) = true := by
    cases o
    · rfl
    · exact Json.isKept_ofString _
  have texts (ts : List String) {limit : Nat} : Json.isKept (limit + 1) (Json.ofList Json.ofString ts) = true := by
    simp [Json.ofList, Json.isKept, Json.keptItems_eq_all, Json.isKept_ofString]
  have dependency : Json.isKept (Json.depthLimit - 1) m.dependency.toJson = true := by
    rw [Dependency.toJson, Json.record, Json.isKept, Json.keptMembers_record]
    simp [texts, Json.depthLimit]
  simp [members, Json.isKept, text, dependency]

/-- The members of an environment and those of its build facts are told apart by their keys. -/
theorem Environment.faithful : Faithful toJson ofJson? where
  legible e := by
    refine legible_record (List.forall_mem_append.2 ⟨?_, e.manifest.legible⟩)
    simp [faithful_text.legible, faithful_port.legible, Status.faithful.legible,
      (faithful_text.option ofString_ne_null).legible]
  read e := by
    have hmanifest : Manifest.ofJson? (.record e.manifest.members) = some e.manifest := Manifest.faithful.read _
    rw [ofJson?, toJson, Json.flattened?_record, Option.bind_eq_bind, Option.bind_some]
    · simp [↓faithful_text.required_bind, ↓faithful_port.required_bind, ↓Status.faithful.required_bind,
        ↓faithful_text.optional_bind ofString_ne_null, hmanifest]
    · rfl
    · simp [Manifest.members]
    · exact e.manifest.kept

theorem PortBinding.faithful : Faithful toJson ofJson? where
  legible b := legible_record (by simp [faithful_text.legible, faithful_port.legible])
  read b := by
    rw [ofJson?, toJson, slots?_record_bind []]
    · simp [↓faithful_text.required_bind, ↓faithful_port.required_bind]
    · rfl
    · decide

theorem ServicePort.faithful : Faithful toJson ofJson? where
  legible p := legible_record (by simp [faithful_text.legible, faithful_port.legible])
  read p := by
    rw [ofJson?, toJson, slots?_record_bind []]
    · simp [↓faithful_text.required_bind, ↓faithful_port.required_bind]
    · rfl
    · decide

theorem Started.faithful : Faithful toJson ofJson? where
  legible s := legible_record
    (by simp [faithful_text.legible, faithful_port.legible, ServicePort.faithful.list.legible])
  read s := by
    rw [ofJson?, toJson, slots?_record_bind []]
    · simp [↓faithful_text.required_bind, ↓faithful_port.required_bind, ↓ServicePort.faithful.list.required_bind]
    · rfl
    · decide

end Views

section Gpu

/-- The identifiers are left out where there are none. -/
theorem Gpu.Device.faithful : Faithful toJson ofJson? where
  legible d := by
    refine legible_record ?_
    cases d.ids <;> simp [faithful_text.legible, faithful_count.legible, faithful_text.list.legible,
      faithful_text.list.list.legible, faithful_texts.legible]
  read d := by
    obtain ⟨driver, count, ids, capabilities, options⟩ := d
    cases ids with
    | nil =>
      rw [ofJson?, toJson, slots?_record_lookup_bind]
      · simp [List.lookup_cons, List.lookup_nil, ↓faithful_text.required_bind, ↓faithful_count.required_bind,
          ↓faithful_text.list.list.required_bind, ↓faithful_texts.defaulted_bind, ↓defaulted_absent_bind]
      · simp
    | cons id ids =>
      rw [ofJson?, toJson, slots?_record_lookup_bind]
      · simp [List.lookup_cons, List.lookup_nil, ↓faithful_text.required_bind, ↓faithful_count.required_bind,
          ↓faithful_text.list.defaulted_bind, ↓faithful_text.list.list.required_bind, ↓faithful_texts.defaulted_bind]
      · simp

theorem Gpu.Request.faithful : Faithful toJson ofJson? where
  legible
    | .none => faithful_text.legible "none"
    | .count n => legible_record (by simp [faithful_count.legible])
    | .spec text => legible_record (by simp [faithful_text.legible])
  read
    | .none => if_pos (faithful_text.read "none")
    | .count n => by
      rw [ofJson?, toJson, if_neg, Json.members?_record]
      · simp [faithful_count.read]
      · simp [Json.record, Json.asWord?, Json.ofInt, Json.asString?]
    | .spec text => by
      rw [ofJson?, toJson, if_neg, Json.members?_record]
      · simp [faithful_text.read]
      · simp [Json.record, Json.asWord?, Json.ofString, Json.asString?]

end Gpu

section Contexts

/-- What a context has no value for is left out. -/
theorem Context.faithful : Faithful toJson ofJson? where
  legible c := by
    refine legible_record ?_
    obtain ⟨name, runner, address, login, token⟩ := c
    cases address <;> cases login <;> cases token <;> simp [faithful_text.legible, Runner.faithful.legible]
  read c := by
    obtain ⟨name, runner, address, login, token⟩ := c
    cases address <;> cases login <;> cases token
    all_goals
      rw [ofJson?, toJson, slots?_record_lookup_bind]
      · simp [List.lookup_cons, List.lookup_nil, ↓faithful_text.required_bind, ↓Runner.faithful.defaulted_bind,
          ↓faithful_text.defaulted_some_bind ofString_ne_null, ↓defaulted_absent_bind]
      · simp

theorem Contexts.faithful : Faithful toJson ofJson? where
  legible cs := legible_record (by simp [faithful_text.legible, Context.faithful.list.legible])
  read cs := by
    rw [ofJson?, toJson, Json.closedSlots?_record, slots?_record_bind []]
    · simp [↓faithful_text.required_bind, ↓Context.faithful.list.defaulted_bind]
    · rfl
    · decide
    · simp

end Contexts

section Containers

theorem Container.Mount.faithful : Faithful toJson ofJson? where
  legible m := legible_record (by simp [faithful_text.legible, faithful_flag.legible])
  read m := by
    rw [ofJson?, toJson, slots?_record_bind []]
    · simp [↓faithful_text.required_bind, ↓faithful_flag.defaulted_bind]
    · rfl
    · decide

theorem Container.Binding.faithful : Faithful toJson ofJson? where
  legible b := legible_record (by simp [faithful_text.legible, faithful_port.legible])
  read b := by
    rw [ofJson?, toJson, slots?_record_bind []]
    · simp [↓faithful_text.required_bind, ↓faithful_port.required_bind]
    · rfl
    · decide

theorem Container.Spec.faithful : Faithful toJson ofJson? where
  legible s := legible_record (by
    simp [faithful_text.legible, faithful_texts.legible, faithful_port.list.legible, Binding.faithful.list.legible,
      Mount.faithful.list.legible, (faithful_size.option nofun).legible, Gpu.Device.faithful.list.legible,
      (faithful_text.option ofString_ne_null).legible])
  read s := by
    rw [ofJson?, toJson, slots?_record_bind []]
    · simp [↓faithful_text.required_bind, ↓faithful_texts.required_bind, ↓faithful_port.list.required_bind,
        ↓Binding.faithful.list.required_bind, ↓Mount.faithful.list.required_bind, ↓faithful_size.optional_bind nofun,
        ↓Gpu.Device.faithful.list.required_bind, ↓faithful_text.optional_bind ofString_ne_null]
    · rfl
    · decide

theorem Container.faithful : Faithful toJson ofJson? where
  legible c := legible_record (by
    simp [faithful_text.legible, Identifier.faithful.legible, Status.faithful.legible, faithful_texts.legible,
      Binding.faithful.list.legible])
  read c := by
    rw [ofJson?, toJson, slots?_record_bind []]
    · simp [↓faithful_text.required_bind, ↓Identifier.faithful.required_bind, ↓Status.faithful.required_bind,
        ↓faithful_texts.required_bind, ↓Binding.faithful.list.required_bind]
    · rfl
    · decide

/-- What a runtime tells about itself, with its low-level runtimes in some order. -/
def Runtime.Info.toJsonIn (i : Info) (order : List (String × String)) : Json :=
  .record [("name", .ofString i.name), ("server_version", .ofString i.serverVersion),
    ("operating_system", .ofString i.os), ("kernel_version", .ofString i.kernel),
    ("default_runtime", .ofString i.defaultRuntime), ("ncpu", .ofNat i.cpus.toNat),
    ("mem_total", .ofNat i.memory.toNat), ("runtimes", .record (order.map fun e => (e.1, .ofString e.2)))]

theorem Runtime.Info.toJson_eq (i : Info) : i.toJson = i.toJsonIn i.runtimes.entries := rfl

theorem Runtime.Info.legible_toJsonIn (i : Info) (order : List (String × String)) : (i.toJsonIn order).Legible := by
  have hruntimes : (Json.record (order.map fun e => (e.1, .ofString e.2))).Legible := by
    refine legible_record fun f hf => ?_
    obtain ⟨e, -, rfl⟩ := List.mem_map.1 hf
    exact faithful_text.legible e.2
  exact legible_record (by simp [faithful_text.legible, faithful_size.legible, hruntimes])

theorem Runtime.Info.read_toJsonIn (i : Info) {order : List (String × String)} (h : order.Perm i.runtimes.entries) :
    ofJson? (i.toJsonIn order) = some i := by
  have hruntimes : Json.asTexts? (.record (order.map fun e => (e.1, .ofString e.2))) = some i.runtimes := by
    rw [Json.asTexts?_record, SortedMap.ofList_of_perm h]
  rw [ofJson?, toJsonIn, slots?_record_bind []]
  · simp [↓faithful_text.required_bind, ↓faithful_size.required_bind, Slot.required, hruntimes]
  · rfl
  · decide

end Containers

section Texts

/-- A tree read back as a value from the text on one line and from the one over several. -/
structure ReadBack {α : Type} (j : Json) (value? : Json → Option α) (a : α) : Prop where
  compact : (Json.read? j.compactText).bind value? = some a
  pretty : (Json.read? j.prettyText).bind value? = some a

theorem readBack_of_legible {α : Type} {j : Json} {value? : Json → Option α} {a : α} (hj : j.Legible)
    (h : value? j = some a) : ReadBack j value? a where
  compact := by rw [Json.read?_compactText hj, Option.bind_some, h]
  pretty := by rw [Json.read?_prettyText hj, Option.bind_some, h]

theorem Json.Faithful.readBack {α : Type} {write : α → Json} {value? : Json → Option α}
    (h : Faithful write value?) (a : α) : ReadBack (write a) value? a :=
  readBack_of_legible (h.legible a) (h.read a)

/-- Every record is read back from what is written for it, whatever texts, lists, maps and numbers it holds; the
low-level runtimes may come in any order. -/
theorem records_read_back :
    (∀ e : Environment, ReadBack e.toJson Environment.ofJson? e) ∧
    (∀ s : Container.Spec, ReadBack s.toJson Container.Spec.ofJson? s) ∧
    (∀ c : Container, ReadBack c.toJson Container.ofJson? c) ∧
    (∀ s : Started, ReadBack s.toJson Started.ofJson? s) ∧
    (∀ b : PortBinding, ReadBack b.toJson PortBinding.ofJson? b) ∧
    (∀ c : Context, ReadBack c.toJson Context.ofJson? c) ∧
    (∀ cs : Contexts, ReadBack cs.toJson Contexts.ofJson? cs) ∧
    (∀ d : Gpu.Device, ReadBack d.toJson Gpu.Device.ofJson? d) ∧
    (∀ r : Gpu.Request, ReadBack r.toJson Gpu.Request.ofJson? r) ∧
    (∀ i : Runtime.Info, ReadBack i.toJson Runtime.Info.ofJson? i) ∧
    (∀ (i : Runtime.Info) (order : List (String × String)), order.Perm i.runtimes.entries →
      ReadBack (i.toJsonIn order) Runtime.Info.ofJson? i) := by
  have hinfo (i : Runtime.Info) (order : List (String × String)) (h : order.Perm i.runtimes.entries) :
      ReadBack (i.toJsonIn order) Runtime.Info.ofJson? i :=
    readBack_of_legible (i.legible_toJsonIn order) (i.read_toJsonIn h)
  exact ⟨Environment.faithful.readBack, Container.Spec.faithful.readBack, Container.faithful.readBack,
    Started.faithful.readBack, PortBinding.faithful.readBack, Context.faithful.readBack, Contexts.faithful.readBack,
    Gpu.Device.faithful.readBack, Gpu.Request.faithful.readBack, fun i => i.toJson_eq ▸ hinfo i _ (.refl _), hinfo⟩

end Texts

end DevEnv
