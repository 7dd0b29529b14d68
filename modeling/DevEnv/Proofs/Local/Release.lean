import DevEnv.Proofs.Local.Removal

/-! What the destruction of an environment releases. Images are looked up by tag or by identifier, but taken away by tag
only, and kept for others only if these were created from the same tag; what goes wrong comes from that. -/
namespace DevEnv.Local
open DevEnv.Action
open DevEnv.Runtime (Memory)
open DevEnv.Runtime.Memory (Entry Reachable)

/-- Another container than that of the name was created from the image, whatever reference it was given. -/
def Shared (m : Memory) (name : String) (i : StoredImage) : Prop :=
  ∃ n e j, n ≠ name ∧ m.containers.get? n = some e ∧ m.inspectImage e.container.image = .ok j ∧ j.id = i.id

/-- The reference is a tag, and no other container than that of the name was created from this tag. -/
def Drops (m : Memory) (name reference : String) : Prop :=
  (∃ i, m.images.get? reference = some i) ∧
    ∀ n e, n ≠ name → m.containers.get? n = some e → e.container.image ≠ reference

/-- The container of a name is gone, and with it exactly what it alone was using. -/
structure Releases (m m' : Memory) (name reference : String) (i : StoredImage) : Prop where
  gone : m'.containers.get? name = none
  others : ∀ n, n ≠ name → m'.containers.get? n = m.containers.get? n
  released : ¬ Shared m name i → m'.inspectImage reference = .error (.notFound reference)
  kept : Shared m name i → ∃ r, m'.images.get? r = some i
  images : ∀ r j, j ≠ i → (m'.images.get? r = some j ↔ m.images.get? r = some j)

/-- What goes wrong when the container of a name is destroyed that was created from an image by a reference. -/
inductive Mishap (m : Memory) (name reference : String) (i : StoredImage) : Prop where
  /-- The image stays though nothing uses it any more. -/
  | leaked (untagged : m.images.get? reference = none) (sole : ¬ Shared m name i)
  /-- The image is taken away from a container that was created from it by its identifier. -/
  | robbed (drops : Drops m name reference) (shared : Shared m name i)
  /-- The tag was the identifier of another image, to which it leads from now on. -/
  | shadowed {r : String} {j : StoredImage} (drops : Drops m name reference) (sole : ¬ Shared m name i)
      (other : r ≠ reference) (filed : m.images.get? r = some j) (id : j.id.text = reference)

section Images
variable {m : Memory} {name reference : String} {k : Entry} {i : StoredImage}

theorem Drops.get? (hd : Drops m name reference) (hi : m.inspectImage reference = .ok i) :
    m.images.get? reference = some i := by
  obtain ⟨⟨j, hj⟩, _⟩ := hd
  rw [Memory.inspectImage_of_get? hj] at hi
  cases hi
  exact hj

/-- An image that nothing else uses is kept for no other container. -/
theorem drops_of_not_shared (hi : m.images.get? reference = some i) (hs : ¬ Shared m name i) :
    Drops m name reference := by
  refine ⟨⟨i, hi⟩, ?_⟩
  rintro n e hn he rfl
  exact hs ⟨n, e, i, hn, he, Memory.inspectImage_of_get? hi, rfl⟩

private theorem drops_iff : Drops m k.container.name reference ↔
    m.images.contains reference ∧ ∀ e ∈ (without m k).containers.values, e.container.image ≠ reference := by
  refine and_congr SortedMap.contains_iff.symm ?_
  constructor
  · intro h e he
    obtain ⟨n, hn⟩ := SortedMap.mem_values.1 he
    exact h n e (SortedMap.ne_of_get?_erase hn) (SortedMap.get?_of_get?_erase hn)
  · intro h n e hne he
    exact h e (SortedMap.mem_values.2 ⟨n, by rw [SortedMap.get?_erase_ne hne, he]⟩)

theorem images_destroyed_of_drops (hd : Drops m k.container.name k.container.image) :
    (destroyed m k).images = m.images.erase k.container.image := by
  obtain ⟨hc, hu⟩ := drops_iff.1 hd
  unfold destroyed
  dsimp only [Memory.answer]
  rcases Memory.removeImage_cases (without m k) k.container.image with ⟨_, hr⟩ | ⟨hno, _⟩
  · rw [hr]
  · exact absurd ⟨hc, hu⟩ hno

theorem images_destroyed_of_not_drops (hd : ¬ Drops m k.container.name k.container.image) :
    (destroyed m k).images = m.images := by
  unfold destroyed
  dsimp only [Memory.answer]
  rcases Memory.removeImage_cases (without m k) k.container.image with ⟨hyes, _⟩ | ⟨_, hr | ⟨text, hr⟩⟩
  · exact absurd (drops_iff.2 hyes) hd
  · rw [hr]
  · rw [hr]

end Images

section Destroyed
variable {m : Memory} {k : Entry} {i : StoredImage}

private theorem Mishap.not_releases (hm : Reachable m) (hi : m.inspectImage k.container.image = .ok i)
    (hx : Mishap m k.container.name k.container.image i) :
    ¬ Releases m (destroyed m k) k.container.name k.container.image i := by
  intro h
  cases hx with
  | leaked untagged sole =>
    have hd : ¬ Drops m k.container.name k.container.image := by
      rintro ⟨⟨j, hj⟩, _⟩
      rw [untagged] at hj
      cases hj
    have himages := images_destroyed_of_not_drops hd
    have hgone := h.released sole
    rw [Memory.inspectImage, himages, ← Memory.inspectImage, hi] at hgone
    cases hgone
  | robbed drops shared =>
    obtain ⟨r, hr⟩ := h.kept shared
    rw [images_destroyed_of_drops drops] at hr
    have heq : r = k.container.image :=
      hm.catalogued.distinct (SortedMap.get?_of_get?_erase hr) (drops.get? hi) rfl
    exact SortedMap.ne_of_get?_erase hr heq
  | @shadowed r j drops sole other filed id =>
    obtain ⟨_, hall⟩ := Memory.inspectImage_eq_notFound_iff.1 (h.released sole)
    have hfiled : (destroyed m k).images.get? r = some j := by
      rw [images_destroyed_of_drops drops, SortedMap.get?_erase_ne other, filed]
    exact hall r j hfiled id

private theorem releases_of_not_mishap (hi : m.inspectImage k.container.image = .ok i)
    (hx : ¬ Mishap m k.container.name k.container.image i) :
    Releases m (destroyed m k) k.container.name k.container.image i := by
  constructor
  case gone => rw [containers_destroyed, SortedMap.get?_erase_self]
  case others =>
    intro n hn
    rw [containers_destroyed, SortedMap.get?_erase_ne hn]
  case released =>
    intro hs
    rcases Memory.filed_of_inspectImage hi with hk | ⟨hk, _⟩
    · have hd := drops_of_not_shared hk hs
      rw [Memory.inspectImage_eq_notFound_iff, images_destroyed_of_drops hd]
      refine ⟨SortedMap.get?_erase_self .., ?_⟩
      intro r j hr hid
      exact hx (.shadowed hd hs (SortedMap.ne_of_get?_erase hr) (SortedMap.get?_of_get?_erase hr) hid)
    · exact absurd (.leaked hk hs) hx
  case kept =>
    intro hs
    have hd : ¬ Drops m k.container.name k.container.image := fun hd => hx (.robbed hd hs)
    rw [images_destroyed_of_not_drops hd]
    rcases Memory.filed_of_inspectImage hi with hk | ⟨_, hk⟩
    · exact ⟨_, hk⟩
    · exact hk
  case images =>
    intro r j hj
    by_cases hd : Drops m k.container.name k.container.image
    · rw [images_destroyed_of_drops hd]
      by_cases hr : r = k.container.image
      · have hne : (some i : Option StoredImage) ≠ some j := fun h => hj (Option.some.inj h).symm
        rw [hr, SortedMap.get?_erase_self, hd.get? hi]
        exact iff_of_false nofun hne
      · rw [SortedMap.get?_erase_ne hr]
    · rw [images_destroyed_of_not_drops hd]

end Destroyed

section Run
variable {τ : Type} {host : (q : Host.Query) → τ → q.Answer × τ} {h h' : τ} {m m' : Memory} {name result : String}
  {k : Entry} {i : StoredImage}

/-- A destruction that says that it was done has been done. -/
theorem removable_of_ends_destroy (hm : Reachable m) (hf : m.find? name = some k)
    (he : Ends (beside host) (destroy name) (h, m) (.ok (some result)) (h', m')) : Removable k := by
  refine Classical.byContradiction fun hr => ?_
  obtain ⟨hres, _⟩ := he.unique (ends_destroy_stuck hm.sound hf hr)
  cases hres

/-- A destruction takes away the container of its name and keeps to what this one alone was using, but for the three
mishaps that come of looking images up in one way and taking them away in another. -/
theorem destroy_releases (hm : Reachable m) (hu : Memory.Undisputed m name) (hk : m.containers.get? name = some k)
    (hi : m.inspectImage k.container.image = .ok i)
    (he : Ends (beside host) (destroy name) (h, m) (.ok (some result)) (h', m')) :
    m'.containers = m.containers.erase name ∧
      (Drops m name k.container.image → m'.images = m.images.erase k.container.image) ∧
      (¬ Drops m name k.container.image → m'.images = m.images) ∧
      (Releases m m' name k.container.image i ↔ ¬ Mishap m name k.container.image i) := by
  obtain rfl := hm.sound.filed hk
  have hf := hu.find?_of_get? hk
  have hr := removable_of_ends_destroy hm hf he
  obtain ⟨_, hw⟩ := he.unique (ends_destroy_removable hm.sound hf hr)
  obtain ⟨_, rfl⟩ := Prod.mk.inj hw
  refine ⟨containers_destroyed m k, images_destroyed_of_drops, images_destroyed_of_not_drops, ?_⟩
  constructor
  · exact fun hrel hx => hx.not_releases hm hi hrel
  · exact releases_of_not_mishap hi

/-- Two environments that were created from images of their own. -/
def neighbours : Memory :=
  Memory.after [.addImage "mnist:dev" ∅ default, .addImage "cifar:dev" ∅ default,
    .call (.create { name := "cifar", image := "cifar:dev" }), .call (.create { name := "mnist", image := "mnist:dev" }),
    .call (.start "mnist")] {}

/-- One of the two, and its image. -/
def neighbour : Entry := (neighbours.find? "mnist").getD default

def neighbourImage : StoredImage := (neighbours.images.get? "mnist:dev").getD default

theorem destroy_releases_neighbour :
    Ends (beside stillHost) (destroy "mnist") ((), neighbours) (.ok (some "mnist"))
      ((), destroyed neighbours neighbour) ∧
    Releases neighbours (destroyed neighbours neighbour) "mnist" "mnist:dev" neighbourImage := by
  have hm : Reachable neighbours := Reachable.empty.after _
  have hu : Memory.Undisputed neighbours "mnist" := hm.sound.undisputed (by decide)
  have hk : neighbours.containers.get? "mnist" = some neighbour := rfl
  have hi : neighbours.inspectImage neighbour.container.image = .ok neighbourImage := rfl
  have he : Ends (beside stillHost) (destroy "mnist") ((), neighbours) (.ok (some "mnist"))
      ((), destroyed neighbours neighbour) :=
    ends_destroy_removable hm.sound (hu.find?_of_get? hk) (removable_iff.2 rfl)
  have hsole : ¬ Shared neighbours "mnist" neighbourImage := by
    rintro ⟨n, e, j, hn, hfiled, hj, hid⟩
    rcases List.mem_cons.1 (SortedMap.get?_eq_some_iff.1 hfiled) with hcifar | hmnist
    · obtain ⟨rfl, rfl⟩ := Prod.mk.inj hcifar
      cases hj
      exact absurd hid (by decide)
    · exact hn (Prod.mk.inj (List.mem_singleton.1 hmnist)).1
  refine ⟨he, (destroy_releases hm hu hk hi he).2.2.2.2 ?_⟩
  intro hx
  cases hx with
  | leaked untagged _ => cases untagged
  | robbed _ shared => exact hsole shared
  | @shadowed r j _ _ other filed id =>
    rcases List.mem_cons.1 (SortedMap.get?_eq_some_iff.1 filed) with hcifar | hmnist
    · obtain ⟨rfl, rfl⟩ := Prod.mk.inj hcifar
      exact absurd id (by decide)
    · exact other (Prod.mk.inj (List.mem_singleton.1 hmnist)).1

/-- Two environments of one image, one created from its tag and the other one from its identifier. -/
def twins : Memory :=
  Memory.after [.addImage "mnist:dev" ∅ default, .call (.create { name := "mnist", image := "mnist:dev" }),
    .call (.create
      { name := "twin", image := "sha256:0000000000000000000000000000000000000000000000000000000000000001" })] {}

/-- The destruction of an environment can take the image away from another one. -/
theorem destroy_robs_twin : ¬ ∀ (m m' : Memory) (name result : String) (k : Entry) (i : StoredImage),
    Reachable m → m.containers.get? name = some k →
      (∀ n x, m.containers.get? n = some x → x.container.id.text ≠ name) →
      m.inspectImage k.container.image = .ok i →
      Ends (beside stillHost) (destroy name) ((), m) (.ok (some result)) ((), m') →
      Releases m m' name k.container.image i := by
  intro h
  have hm : Reachable twins := Reachable.empty.after _
  have hid (n : String) (x : Entry) (hx : twins.containers.get? n = some x) : x.container.id.text ≠ "mnist" := by
    rcases List.mem_cons.1 (SortedMap.get?_eq_some_iff.1 hx) with hmnist | htwin
    · obtain ⟨rfl, rfl⟩ := Prod.mk.inj hmnist
      decide
    · obtain ⟨rfl, rfl⟩ := Prod.mk.inj (List.mem_singleton.1 htwin)
      decide
  have hreleases := h twins _ "mnist" "mnist" _ _ hm rfl hid rfl rfl
  obtain ⟨r, hr⟩ := hreleases.kept ⟨"twin", _, _, by decide, rfl, rfl, rfl⟩
  cases hr

end Run

end DevEnv.Local
