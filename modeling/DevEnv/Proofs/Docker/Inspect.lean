import DevEnv.Docker.Inspect
import DevEnv.Proofs.Json.Records
import DevEnv.Proofs.Plan.Booking
import DevEnv.Proofs.Text.Blank
import DevEnv.Proofs.Text.Split
import Mathlib.Data.List.Nodup

/-! The bindings of a planned container read off what is printed about it. The keys of the printed map come in an
order of their own and each has a list of entries; the bindings come out in the order of the plan, each as its last
entry. -/
namespace DevEnv

/-- Trimming takes the blanks around a JSON text. -/
theorem Text.trimChars_around (p : Json.Padding) {first last : Char} {mid : List Char}
    (hf : isBlank first = false) (hl : isBlank last = false) :
    trimChars (p.around (first :: (mid ++ [last]))) = first :: (mid ++ [last]) := by
  have hblank {cs : List Char} (hcs : Json.Blanks cs) : ∀ c ∈ cs, isBlank c = true := by
    intro c hc
    have hb : Json.isBlank c = true := hcs c hc
    simp only [Json.isBlank, Bool.or_eq_true, decide_eq_true_eq] at hb
    rcases hb with ((rfl | rfl) | rfl) | rfl <;> decide
  have hfront : trimFront (p.around (first :: (mid ++ [last]))) = (first :: mid) ++ last :: p.back := by
    rw [Json.Padding.around, trimFront, List.dropWhile_append_of_pos (hblank p.frontBlanks), List.cons_append,
      List.dropWhile_cons_of_neg (by simp [hf])]
    simp
  have hback : trimBack p.back = [] := by
    rw [trimBack, List.dropWhile_eq_nil_iff.2 fun c hc => hblank p.backBlanks c (List.mem_reverse.1 hc)]
    rfl
  rw [trimChars, hfront, trimBack_append_cons hl, hback]
  rfl

namespace Json

/-- An object has a value under a key; of equal keys the last one counts. -/
inductive Holds (key : String) (j v : Json) : Prop where
  | mk (above : List (String × Json)) {below : List (String × Json)}
      (members : j.members? = some (above ++ (key, v) :: below)) (last : key ∉ below.map (·.1))

variable {key s : String} {j v : Json}

theorem Holds.member?_eq (h : Holds key j v) : member? key j = some v := by
  obtain ⟨above, hmembers, hlast⟩ := h
  rw [member?, hmembers, Option.bind_some, List.reverse_append, List.reverse_cons, List.append_assoc,
    List.lookup_append, SortedMap.lookup_eq_none_of_notMem, Option.none_or]
  · exact List.lookup_cons_self
  · simpa using hlast

/-- An object has a text under a key. -/
def HoldsText (key : String) (j : Json) (s : String) : Prop := ∃ v, Holds key j v ∧ v.asString? = some s

theorem HoldsText.record (above : List (String × Json)) {below : List (String × Json)} (last : key ∉ below.map (·.1)) :
    HoldsText key (.record (above ++ (key, .ofString s) :: below)) s :=
  ⟨_, ⟨above, members?_record, last⟩, faithful_text.read s⟩

theorem HoldsText.textAt_eq (h : HoldsText key j s) : textAt [key] j = s := by
  obtain ⟨v, hv, hs⟩ := h
  simp [textAt, hv.member?_eq, hs]

end Json

namespace Docker
open Json (Holds HoldsText)

/-- What is printed of a binding: its container port as the key, and a list of which it is the last entry. -/
structure Printed (b : Container.Binding) (e : String × Json) : Prop where
  key : e.1 = Text.ofNat b.containerPort.toNat ++ "/tcp"
  entries : ∃ earlier last, e.2 = .array (earlier ++ [last]) ∧ HoldsText "HostIp" last b.hostIp ∧
    HoldsText "HostPort" last (Text.ofNat b.hostPort.toNat)

/-- What is printed of a container with certain bindings: its state, and a key for each binding in some order. -/
structure Shape (j : Json) (status : Status) (bs : List Container.Binding) : Prop where
  status : ∃ state word, Holds "State" j state ∧ HoldsText "Status" state word ∧ Status.read word = .ok status
  bindings : ∃ config map entries order, Holds "HostConfig" j config ∧ Holds "PortBindings" config map ∧
    map.members? = some entries ∧ order.Perm bs ∧ List.Forall₂ Printed order entries

/-- What is printed when one container is inspected: a list with its value, between blanks. It can be kept, as its
strings have characters, its numbers are finite and it is not nested too deep. -/
inductive Inspected (printed : String) (status : Status) (bs : List Container.Binding) : Prop where
  | mk {j : Json} {cs : List Char} (padding : Json.Padding) (text : printed.toList = padding.around cs)
      (spells : Json.Spells (.array [j]) cs) (kept : Json.isKept Json.depthLimit (.array [j]) = true)
      (shape : Shape j status bs)

variable {j : Json} {status : Status} {bs : List Container.Binding} {b : Container.Binding} {e : String × Json}

/-- A number ends before a character that is no digit. -/
theorem slash_notMem_ofNat (n : Nat) : '/' ∉ (Text.ofNat n).toList := by
  rw [Text.ofNat, String.toList_ofList]
  intro hm
  have hdigit : '/'.isDigit := Text.isDigit_of_mem_digits hm
  cases hdigit

theorem binding?_of_printed (hb : b.protocol = "tcp") (h : Printed b e) : binding? e.1 e.2 = some b := by
  obtain ⟨key, value⟩ := e
  obtain ⟨rfl, earlier, last, rfl, hip, hport⟩ := h
  have hcut : Text.cut '/' (Text.ofNat b.containerPort.toNat ++ "/tcp") =
      some (Text.ofNat b.containerPort.toNat, "tcp") := by
    rw [Text.cut_eq_some_iff, String.toList_append]
    exact ⟨rfl, slash_notMem_ofNat _⟩
  obtain ⟨containerPort, protocol, hostIp, hostPort⟩ := b
  obtain rfl := hb
  simp [binding?, hcut, Text.readPort?_ofNat, hip.textAt_eq, hport.textAt_eq]

/-- Bindings in the order of their container ports, each with a port of its own. -/
def Ascending (bs : List Container.Binding) : Prop := bs.Pairwise fun b b' => b.containerPort < b'.containerPort

theorem Ascending.ports_nodup (h : Ascending bs) : (bs.map (·.containerPort)).Nodup := by
  refine List.pairwise_map.2 (h.imp fun hab he => ?_)
  rw [he] at hab
  exact absurd hab (UInt16.lt_irrefl _)

/-- Bindings in any order are sorted into the order of their ports. -/
theorem Ascending.mergeSort_eq (h : Ascending bs) {order : List Container.Binding} (hp : order.Perm bs) :
    order.mergeSort (fun a b => a.containerPort ≤ b.containerPort) = bs := by
  have hperm : (order.mergeSort fun a b => a.containerPort ≤ b.containerPort).Perm bs :=
    (List.mergeSort_perm order _).trans hp
  have hsorted : (order.mergeSort fun a b => a.containerPort ≤ b.containerPort).Pairwise
      fun a b => a.containerPort ≤ b.containerPort := by
    have hpairwise : (order.mergeSort fun a b => a.containerPort ≤ b.containerPort).Pairwise
        fun a b => decide (a.containerPort ≤ b.containerPort) = true :=
      List.pairwise_mergeSort
        (fun a b c hab hbc => by simpa using UInt16.le_trans (by simpa using hab) (by simpa using hbc))
        (fun a b => by simpa using UInt16.le_total a.containerPort b.containerPort) order
    simpa using hpairwise
  refine hperm.eq_of_pairwise (fun a b ha hb hab hba => ?_) hsorted (h.imp UInt16.le_of_lt)
  exact List.inj_on_of_nodup_map h.ports_nodup (hperm.mem_iff.1 ha) hb (UInt16.le_antisymm hab hba)

section Printed
variable {order : List Container.Binding} {entries : List (String × Json)}

theorem filterMap_printed (h : List.Forall₂ Printed order entries) (htcp : ∀ b ∈ order, b.protocol = "tcp") :
    entries.filterMap (fun e => binding? e.1 e.2) = order := by
  induction h with
  | nil => rfl
  | cons hb _ ih =>
    have hhead := binding?_of_printed (htcp _ List.mem_cons_self) hb
    rw [List.filterMap_cons, hhead]
    exact congrArg (_ :: ·) (ih fun b hmem => htcp b (List.mem_cons_of_mem _ hmem))

theorem keys_printed (h : List.Forall₂ Printed order entries) :
    entries.map (·.1) = order.map fun b => Text.ofNat b.containerPort.toNat ++ "/tcp" := by
  induction h with
  | nil => rfl
  | cons hb _ ih => exact congrArg₂ List.cons hb.key ih

/-- Different ports are printed differently. -/
theorem keys_printed_nodup (h : List.Forall₂ Printed order entries) (hn : (order.map (·.containerPort)).Nodup) :
    (entries.map (·.1)).Nodup := by
  rw [keys_printed h]
  refine List.pairwise_map.2 ((List.pairwise_map.1 hn).imp fun {a b} hne he => hne ?_)
  have hread := congrArg Text.readPort? ((String.append_left_inj "/tcp").1 he)
  rw [Text.readPort?_ofNat, Text.readPort?_ofNat] at hread
  exact Option.some.inj hread

end Printed

theorem bindings_of_shape (h : Shape j status bs) (hb : Ascending bs) (htcp : ∀ b ∈ bs, b.protocol = "tcp") :
    bindings j = bs := by
  obtain ⟨config, map, entries, order, hconfig, hmap, hentries, hperm, hprinted⟩ := h.bindings
  have hkeys : (entries.map (·.1)).Nodup :=
    keys_printed_nodup hprinted ((hperm.map _).nodup_iff.2 hb.ports_nodup)
  have hmembers : membersAt ["HostConfig", "PortBindings"] j = .ofList entries := by
    simp [membersAt, at?, hconfig.member?_eq, hmap.member?_eq, hentries]
  have hread : ((SortedMap.ofList entries).entries.filterMap fun e => binding? e.1 e.2).Perm bs := by
    have hfilter := (SortedMap.entries_ofList_perm hkeys).filterMap fun e => binding? e.1 e.2
    rw [filterMap_printed hprinted fun b hmem => htcp b (hperm.mem_iff.1 hmem)] at hfilter
    exact hfilter.trans hperm
  rw [bindings, hmembers]
  exact hb.mergeSort_eq hread

/-- What is printed of one container is read as its value. -/
theorem readItems_of_inspected {printed : String} (h : Inspected printed status bs) (subject : String) :
    ∃ j, readItems subject printed = .ok [j] ∧ Shape j status bs := by
  obtain @⟨j, cs, padding, htext, hspells, hkept, hshape⟩ := h
  obtain ⟨mid, hcs⟩ := hspells.between_brackets
  have htrim : Text.trim printed = String.ofList cs := by
    rw [Text.trim, htext, hcs, Text.trimChars_around padding (by decide) (by decide)]
  have hchars : Json.readChars cs = some (.array [j]) := by
    have hread := Json.readChars_of_spells hspells .none
    rwa [Json.Padding.around_none] at hread
  have hkeeps : Json.readKept? (Text.trim printed) = some (.array [j]) := by
    rw [Json.readKept?, htrim, Json.read?, String.toList_ofList, hchars, Option.filter_some, if_pos hkept]
  refine ⟨j, ?_, hshape⟩
  unfold readItems
  rw [hkeeps]

theorem container_of_shape (h : Shape j status bs) (hb : Ascending bs) (htcp : ∀ b ∈ bs, b.protocol = "tcp") :
    ∃ c, container j = .ok c ∧ c.status = status ∧ c.bindings = bs := by
  obtain ⟨state, word, hstate, ⟨v, hv, hs⟩, hstatus⟩ := h.status
  have hat : Json.textAt ["State", "Status"] j = word := by
    simp [Json.textAt, hstate.member?_eq, hv.member?_eq, hs]
  unfold container
  rw [hat, hstatus]
  exact ⟨_, rfl, rfl, bindings_of_shape h hb htcp⟩

/-- What is printed is read as one container in its state and with its bindings. -/
theorem readContainers_of_inspected {printed : String} (h : Inspected printed status bs) (hb : Ascending bs)
    (htcp : ∀ b ∈ bs, b.protocol = "tcp") :
    ∃ c, readContainers printed = .ok [c] ∧ c.status = status ∧ c.bindings = bs := by
  obtain ⟨j, hread, hshape⟩ := readItems_of_inspected h "container"
  obtain ⟨c, hc, hcstatus, hcbindings⟩ := container_of_shape hshape hb htcp
  refine ⟨c, ?_, hcstatus, hcbindings⟩
  simp only [readContainers, hread, List.mapM_cons, hc, List.mapM_nil, bind, Except.bind, pure, Except.pure]

section Inspection

/-! The bindings of a container printed with their keys in any order, from which the rest is left out. -/

/-- What is printed of the socket of a binding. -/
def socketJson (b : Container.Binding) : Json :=
  .record [("HostIp", .ofString b.hostIp), ("HostPort", .ofString (Text.ofNat b.hostPort.toNat))]

/-- What is printed of a container in a state, with bindings in any order and earlier entries for each of them. -/
def inspectionJson (word : String) (entries : List (List Container.Binding × Container.Binding)) : Json :=
  .record [
    ("State", .record [("Status", .ofString word)]),
    ("HostConfig", .record [("PortBindings", .record (entries.map fun e =>
      (Text.ofNat e.2.containerPort.toNat ++ "/tcp", .array ((e.1 ++ [e.2]).map socketJson))))])]

def inspectionText (word : String) (entries : List (List Container.Binding × Container.Binding)) : String :=
  (Json.array [inspectionJson word entries]).compactText ++ "\n"

variable {word : String} {entries : List (List Container.Binding × Container.Binding)}

theorem legible_inspectionJson : (inspectionJson word entries).Legible := by
  have htext (s : String) : (Json.ofString s).Legible := Json.faithful_text.legible s
  have hsocket (b : Container.Binding) : (socketJson b).Legible := Json.legible_record (by simp [htext])
  have hstate : (Json.record [("Status", .ofString word)]).Legible := Json.legible_record (by simp [htext])
  refine Json.legible_record (List.forall_mem_cons.2 ⟨hstate, List.forall_mem_singleton.2 ?_⟩)
  refine Json.legible_record (List.forall_mem_singleton.2 (Json.legible_record ?_))
  exact List.forall_mem_map.2 fun e _ => .array (List.forall_mem_map.2 fun b _ => hsocket b)

theorem isKept_inspectionJson : (inspectionJson word entries).isKept 126 = true := by
  simp [inspectionJson, socketJson, Json.isKept_record, Json.isKept, Json.keptItems_eq_all, Json.isKept_ofString]

theorem printed_socketJson (b : Container.Binding) (earlier : List Container.Binding) :
    Printed b (Text.ofNat b.containerPort.toNat ++ "/tcp", .array ((earlier ++ [b]).map socketJson)) where
  key := rfl
  entries := ⟨earlier.map socketJson, socketJson b, by rw [List.map_append]; rfl,
    .record [] (by simp), .record [_] (by simp)⟩

theorem shape_inspectionJson (hw : Status.read word = .ok status) (hp : (entries.map (·.2)).Perm bs) :
    Shape (inspectionJson word entries) status bs where
  status := ⟨_, word, .mk [] Json.members?_record (by simp), .record [] (by simp), hw⟩
  bindings := ⟨_, _, _, _, .mk [_] Json.members?_record (by simp),
    .mk [] Json.members?_record (by simp), Json.members?_record, hp, by
      rw [List.forall₂_map_left_iff, List.forall₂_map_right_iff, List.forall₂_same]
      exact fun e _ => printed_socketJson e.2 e.1⟩

theorem inspected_inspectionText (hw : Status.read word = .ok status) (hp : (entries.map (·.2)).Perm bs) :
    Inspected (inspectionText word entries) status bs := by
  refine .mk (j := inspectionJson word entries) ⟨[], ['\n'], Json.blanks_nil, by decide⟩ ?_
    (Json.spells_compact (.array (by simpa using legible_inspectionJson))) ?_ (shape_inspectionJson hw hp)
  · rw [inspectionText, String.toList_append, Json.compactText, String.toList_ofList]
    rfl
  · simp [Json.isKept, Json.keptItems, Json.depthLimit, isKept_inspectionJson]

end Inspection

section Plan
open Plan (makeInTurn)
variable {answers : Nat → Except String UInt16} {g : Graph} {host : String} {ssh : UInt16} {p : Plan} {n : Nat}

/-- All bindings of a layout are of one protocol. -/
theorem protocol_of_mem_bindings (h : makeInTurn answers g host ssh = (.ok p, n)) {b : Container.Binding}
    (hb : b ∈ p.bindings.values) : b.protocol = "tcp" := by
  obtain ⟨hfree, ports, length, -, -, rfl⟩ := Plan.exists_of_makeInTurn h
  have hs := Plan.containerPort_ne_ssh_of_mem hfree (Plan.map_demand_placements length)
  rcases (Plan.mem_bindings_iff hs).1 hb with rfl | ⟨x, -, rfl⟩ <;> rfl

/-- When a container has the bindings of a layout, its inspection has them as they were laid out. -/
theorem planned_bindings_inspected (h : makeInTurn answers g host ssh = (.ok p, n)) {printed : String}
    {status : Status} (hi : Inspected printed status p.bindings.values) :
    ∃ c, readContainers printed = .ok [c] ∧ c.status = status ∧ c.bindings = p.bindings.values := by
  have hascending : Ascending p.bindings.values := by
    obtain ⟨-, ports, -, -, -, rfl⟩ := Plan.exists_of_makeInTurn h
    exact Plan.ascending_layOut ..
  exact readContainers_of_inspected hi hascending fun b => protocol_of_mem_bindings h

/-- A graph with a notebook on a free port beside a service on a pinned one. -/
def site : Graph := { jupyter := some {}, exposures := [⟨80, 8080, "web", none⟩] }

/-- The bindings of the site with their keys in the order of characters, one of them after an earlier entry. -/
def siteEntries : List (List Container.Binding × Container.Binding) :=
  [([], .tcp 2222 Label.localhost 10022),
    ([.tcp 80 "0.0.0.0" 18080], .tcp 80 Label.localhost 8080),
    ([], .tcp 8888 Label.localhost 40001)]

theorem planned_bindings_inspected_site : ∃ p,
    makeInTurn (Plan.counting 40001) site Label.localhost 10022 = (.ok p, 1) ∧
    Inspected (inspectionText "running" siteEntries) .running p.bindings.values ∧
    ∃ c, readContainers (inspectionText "running" siteEntries) = .ok [c] ∧ c.status = .running ∧
      c.bindings = p.bindings.values := by
  have hmake : makeInTurn (Plan.counting 40001) site Label.localhost 10022 = (.ok _, 1) := rfl
  have hinspected : Inspected (inspectionText "running" siteEntries) .running
      [.tcp 80 Label.localhost 8080, .tcp 2222 Label.localhost 10022, .tcp 8888 Label.localhost 40001] :=
    inspected_inspectionText rfl (.swap ..)
  exact ⟨_, hmake, hinspected, planned_bindings_inspected hmake hinspected⟩

end Plan

end Docker
end DevEnv
