import DevEnv.Proofs.Local.Versions

/-! The listing of environments against looking them up one by one. Both show the same of every environment that can
be read, and the one leaves out what the other refuses. -/
namespace DevEnv.Local
open DevEnv.Action
open DevEnv.Runtime (Memory)
open DevEnv.Runtime.Memory (Entry Reachable Sound Undisputed)

variable {τ : Type} {host : (q : Host.Query) → τ → q.Answer × τ} {h : τ} {m : Memory} {name : String} {k : Entry}

/-- The labels of an environment and those of its image can both be read. -/
structure Legible (labels : Labels) : Prop where
  facts : ∃ f, Label.Facts.decode labels = .ok f
  manifest : ∃ recorded, Label.manifest labels = .ok recorded

theorem ofContainer_of_legible {c : Container} (hl : Legible c.labels) : ∃ e, Environment.ofContainer c = .ok e := by
  obtain ⟨⟨f, hf⟩, recorded, hr⟩ := hl
  rw [Environment.ofContainer, hf, hr]
  exact ⟨_, rfl⟩

theorem legible_of_ofContainer {c : Container} {e : Environment} (he : Environment.ofContainer c = .ok e) :
    Legible c.labels := by
  unfold Environment.ofContainer at he
  cases hf : Label.Facts.decode c.labels <;> cases hr : Label.manifest c.labels <;> rw [hf, hr] at he <;> cases he
  exact ⟨⟨_, hf⟩, _, hr⟩

/-- Labels that cannot be read are an error of the view. -/
theorem ofContainer_of_not_legible {c : Container} (hl : ¬ Legible c.labels) :
    ∃ x, Environment.ofContainer c = .error x := by
  cases he : Environment.ofContainer c with
  | error x => exact ⟨x, rfl⟩
  | ok e => exact absurd (legible_of_ofContainer he) hl

section Lookup

/-- No container comes to run by being looked at. -/
def Steady (m : Memory) : Prop :=
  ∀ n k, m.containers.get? n = some k → k.container.status = .created → k.pending = none

theorem Steady.advance (hst : Steady m) {n : String} (hk : m.containers.get? n = some k) : k.advance = k := by
  by_cases hs : k.container.status = .created
  · rw [Entry.advance, if_pos hs, hst n k hk hs]
  · exact Entry.advance_of_ne_created hs

/-- A container is looked up as it is, by any name that leads to it. -/
theorem ends_environment_steady (hm : Sound m) (hst : Steady m) (hf : m.find? name = some k) :
    Ends (beside host) (environment name) (h, m) (shownAs name k.container) (h, m) := by
  have hends : Ends (beside host) (environment name) (h, m) _ (h, m.put k.advance) := ends_environment_of_find? hf
  have hk := hm.get?_of_find? hf
  rwa [hst.advance hk, Memory.put_of_get? hk] at hends

theorem ends_environment_absent (hf : m.find? name = none) :
    Ends (beside host) (environment name) (h, m) (.error (.environmentNotFound name)) (h, m) :=
  ends_bind.2 (.inr ⟨_, ends_inspect_absent hf (ends_throw.2 ⟨rfl, rfl⟩), rfl⟩)

end Lookup

section Order

/-- Containers are kept in the order of their names, and so are their views. -/
theorem pairwise_listed (hm : Sound m) : (listed m).Pairwise fun e e' => e.name < e'.name := by
  have hfiled : ∀ x ∈ m.containers.entries, x.2.container.name = x.1 := fun x hx =>
    hm.filed (SortedMap.get?_eq_some_iff.2 hx)
  have hnames : (m.containers.values.map (·.container)).Pairwise fun c c' => c.name < c'.name := by
    refine List.pairwise_map.2 (List.pairwise_map.2 (m.containers.ascending.imp_of_mem ?_))
    intro x y hx hy hxy
    rwa [hfiled x hx, hfiled y hy]
  refine List.pairwise_filterMap.2 (List.pairwise_map.2 ((hnames.filter _).imp ?_))
  intro c c' hc e he e' he'
  rw [name_of_ofContainer (toOption_eq_some_iff.1 he), name_of_ofContainer (toOption_eq_some_iff.1 he')]
  exact hc

/-- What is listed of a name depends on nothing but the container of that name. -/
theorem mem_listed_iff_get? (hm : Sound m) {e : Environment} : e ∈ listed m ↔
    ∃ k, m.containers.get? e.name = some k ∧ Label.isOwned k.container.labels ∧
      Environment.ofContainer k.container = .ok e := by
  rw [mem_listed]
  constructor
  · rintro ⟨n, k, hk, ho, he⟩
    have hn : e.name = n := (name_of_ofContainer he).trans (hm.filed hk)
    exact ⟨k, hn ▸ hk, ho, he⟩
  · rintro ⟨k, hk, ho, he⟩
    exact ⟨e.name, k, hk, ho, he⟩

end Order

/-- A listing and the lookups beside it, which are by names that are no other container's identifier. -/
structure Agrees (host : (q : Host.Query) → τ → q.Answer × τ) (h : τ) (m : Memory) (es : List Environment) :
    Prop where
  ascending : es.Pairwise fun e e' => e.name < e'.name
  /-- Only views of containers with this library's mark and legible labels are listed, as they are looked up. -/
  shown : ∀ e ∈ es, ∃ k, m.containers.get? e.name = some k ∧ Label.isOwned k.container.labels ∧
    Legible k.container.labels ∧ Environment.ofContainer k.container = .ok e ∧
      (Undisputed m e.name → Ends (beside host) (environment e.name) (h, m) (.ok e) (h, m))
  complete : ∀ n k, m.containers.get? n = some k → Label.isOwned k.container.labels → Legible k.container.labels →
    ∃ e ∈ es, e.name = n
  foreign : ∀ n k, m.containers.get? n = some k → Undisputed m n → ¬ Label.isOwned k.container.labels →
    Ends (beside host) (environment n) (h, m) (.error (.environmentNotFound n)) (h, m)
  illegible : ∀ n k, m.containers.get? n = some k → Undisputed m n → Label.isOwned k.container.labels →
    ¬ Legible k.container.labels → ∃ x, Ends (beside host) (environment n) (h, m) (.error (.label x)) (h, m)
  absent : ∀ n, m.containers.get? n = none → (∀ n' k, m.containers.get? n' = some k → k.container.id.text ≠ n) →
    Ends (beside host) (environment n) (h, m) (.error (.environmentNotFound n)) (h, m)

theorem agrees_listed (hm : Sound m) (hst : Steady m) : Agrees host h m (listed m) where
  ascending := pairwise_listed hm
  shown e he := by
    obtain ⟨k, hk, ho, hview⟩ := (mem_listed_iff_get? hm).1 he
    refine ⟨k, hk, ho, legible_of_ofContainer hview, hview, fun hu => ?_⟩
    have hends : Ends (beside host) (environment e.name) (h, m) _ (h, m) :=
      ends_environment_steady hm hst (hu.find?_of_get? hk)
    rwa [shownAs, if_pos ho, hview] at hends
  complete n k hk ho hl := by
    obtain ⟨e, he⟩ := ofContainer_of_legible hl
    exact ⟨e, mem_listed.2 ⟨n, k, hk, ho, he⟩, (name_of_ofContainer he).trans (hm.filed hk)⟩
  foreign n k hk hu ho := by
    have hends : Ends (beside host) (environment n) (h, m) _ (h, m) :=
      ends_environment_steady hm hst (hu.find?_of_get? hk)
    rwa [shownAs, if_neg ho] at hends
  illegible n k hk hu ho hl := by
    obtain ⟨x, hx⟩ := ofContainer_of_not_legible hl
    have hends : Ends (beside host) (environment n) (h, m) _ (h, m) :=
      ends_environment_steady hm hst (hu.find?_of_get? hk)
    rw [shownAs, if_pos ho, hx] at hends
    exact ⟨x, hends⟩
  absent n hn hid := by
    refine ends_environment_absent (Memory.find?_eq_none_iff.2 fun n' k hk => ⟨?_, hid n' k hk⟩)
    rintro rfl
    cases hn.symm.trans hk

/-- Where nothing comes to run by being looked at, a listing shows each environment that can be read once, in the order
of the names and as it is looked up, whatever else is there; what it leaves out is refused when it is looked up. -/
theorem listing_agrees_with_lookup (hm : Reachable m) (hst : Steady m) (host : (q : Host.Query) → τ → q.Answer × τ)
    (h : τ) : ∃ es, Ends (beside host) environments (h, m) (.ok es) (h, m) ∧ Agrees host h m es ∧
      ∀ m' es' w, Reachable m' → Ends (beside host) environments (h, m') (.ok es') w →
        ∀ n, m'.containers.get? n = m.containers.get? n → ∀ e, e.name = n → (e ∈ es' ↔ e ∈ es) := by
  refine ⟨listed m, ends_environments, agrees_listed hm.sound hst, ?_⟩
  intro m' es' w hm' he' n hn e hne
  obtain ⟨hes', -⟩ := he'.unique ends_environments
  obtain rfl : es' = listed m' := Except.ok.inj hes'
  rw [mem_listed_iff_get? hm'.sound, mem_listed_iff_get? hm.sound, hne, hn]

/-- An environment, a container of somebody else's and one whose labels tell too little. -/
def mixedHistory : List Memory.Operation :=
  [.call (.create { name := "mnist", image := "mnist:dev", labels := Label.ofStart "mnist" {} false 10022 none none }),
    .call (.create { name := "postgres", image := "postgres:16" }),
    .call (.create { name := "broken", image := "mnist:dev", labels := .ofList [(Label.vendorKey, Label.vendor)] })]

theorem listing_agrees_mixed :
    (∃ es, Ends (beside stillHost) environments ((), Memory.after mixedHistory {}) (.ok es)
      ((), Memory.after mixedHistory {}) ∧ ∃ e ∈ es, e.name = "mnist" ∧
        Ends (beside stillHost) (environment "mnist") ((), Memory.after mixedHistory {}) (.ok e)
          ((), Memory.after mixedHistory {})) ∧
    Ends (beside stillHost) (environment "postgres") ((), Memory.after mixedHistory {})
      (.error (.environmentNotFound "postgres")) ((), Memory.after mixedHistory {}) ∧
    ∃ x, Ends (beside stillHost) (environment "broken") ((), Memory.after mixedHistory {}) (.error (.label x))
      ((), Memory.after mixedHistory {}) := by
  have hnone : ∀ x ∈ (Memory.after mixedHistory {}).containers.entries, x.2.pending = none := by decide
  have hst : Steady (Memory.after mixedHistory {}) := fun n k hk _ => hnone (n, k) (SortedMap.get?_eq_some_iff.1 hk)
  have hm : Reachable (Memory.after mixedHistory {}) := Reachable.empty.after mixedHistory
  obtain ⟨es, hes, hagrees, -⟩ := listing_agrees_with_lookup hm hst stillHost ()
  obtain ⟨e, he, hname⟩ := hagrees.complete "mnist" _ rfl rfl ⟨⟨_, rfl⟩, _, rfl⟩
  obtain ⟨_, _, _, _, _, hlook⟩ := hagrees.shown e he
  rw [hname] at hlook
  refine ⟨⟨es, hes, e, he, hname, hlook (hm.sound.undisputed (by decide))⟩,
    hagrees.foreign "postgres" _ rfl (hm.sound.undisputed (by decide)) ?_,
    hagrees.illegible "broken" _ rfl (hm.sound.undisputed (by decide)) rfl ?_⟩
  · decide
  · rintro ⟨⟨f, hf⟩, _⟩
    cases hf

end DevEnv.Local
