import DevEnv.Proofs.Local.Discipline
import DevEnv.Proofs.Naming

/-! The build context is mounted on the working directory, behind the mounts asked for and those of the build graph.
Every container that a start creates works there. -/
namespace DevEnv

section Mounts

/-- A mount option as it is written: a directory of the host and one of the container, with a colon between them. -/
structure Graph.Mount.Spelled (option : String) (m : Graph.Mount) : Prop where
  text : option = m.source ++ ":" ++ m.destination
  source_ne : m.source ≠ ""
  destination_ne : m.destination ≠ ""
  source_colon : ':' ∉ m.source.toList
  destination_colon : ':' ∉ m.destination.toList

theorem Graph.Mount.cut_eq_some_iff {option source destination : String} :
    Text.cut ':' option = some (source, destination) ↔ option = source ++ ":" ++ destination ∧ ':' ∉ source.toList := by
  rw [Text.cut_eq_some_iff, ← String.toList_inj]
  simp

theorem Graph.Mount.read_eq_ok_iff {option : String} {m : Graph.Mount} :
    Graph.Mount.read option = .ok m ↔ Spelled option m := by
  unfold read
  constructor
  · intro h
    split at h
    · next source destination hcut =>
      obtain ⟨htext, hcolon⟩ := cut_eq_some_iff.1 hcut
      split at h
      · next hsides =>
        cases h
        simp only [Bool.and_eq_true, decide_eq_true_eq, Bool.not_eq_true', List.contains_eq_mem,
          decide_eq_false_iff_not] at hsides
        exact ⟨htext, hsides.1.1, hsides.1.2, hcolon, hsides.2⟩
      · cases h
    · cases h
  · intro h
    rw [cut_eq_some_iff.2 ⟨h.text, h.source_colon⟩]
    simp [h.source_ne, h.destination_ne, h.destination_colon]

private theorem bind_eq_ok_iff {α β ε : Type} {x : Except ε α} {f : α → Except ε β} {b : β} :
    x >>= f = .ok b ↔ ∃ a, x = .ok a ∧ f a = .ok b := by
  cases x <;> simp [bind, Except.bind]

private theorem mapM_eq_ok_iff {α β ε : Type} {f : α → Except ε β} {as : List α} {bs : List β} :
    as.mapM f = .ok bs ↔ List.Forall₂ (fun a b => f a = .ok b) as bs := by
  induction as generalizing bs with
  | nil => simp [pure, Except.pure, eq_comm]
  | cons a as ih =>
    rw [List.mapM_cons, List.forall₂_cons_left_iff, bind_eq_ok_iff]
    refine exists_congr fun b => ?_
    simp only [bind_eq_ok_iff, ih, pure, Except.pure, Except.ok.injEq, eq_comm (a := bs)]
    exact exists_and_left.symm

/-- The mounts of an environment: one for each option, one for each mount of the graph, one for the build context. -/
theorem Container.mounts_eq_ok_iff {options : List String} {g : Graph} {buildContext : String}
    {ms : List Container.Mount} : Container.mounts options g buildContext = .ok ms ↔
      ∃ given, List.Forall₂ Graph.Mount.Spelled options given ∧
        ms = (given ++ g.mounts).map (fun m => ⟨m.source, m.destination, false⟩) ++
          [⟨buildContext, Naming.workdir buildContext, false⟩] := by
  unfold Container.mounts
  rw [bind_eq_ok_iff]
  refine exists_congr fun given => and_congr ?_ ?_
  · rw [mapM_eq_ok_iff]
    refine iff_of_eq (congrArg (List.Forall₂ · options given) (funext fun option => funext fun m => propext ?_))
    rw [← Graph.Mount.read_eq_ok_iff]
    cases Graph.Mount.read option <;> simp
  · simp only [pure, Except.pure, Except.ok.injEq]
    exact eq_comm

end Mounts

namespace Local
open Text
open DevEnv.Action
open DevEnv.Runtime (Call)

/-- What a start creates has its mounts composed from the options given and works where the last one is. -/
structure AtHome (o : Options) (spec : Container.Spec) : Prop where
  workdir : spec.workdir = o.workdir
  /-- A graph that was given is the one whose mounts are taken. -/
  mounts : ∃ given mountOptions g, o.source = .docker given mountOptions ∧ (∀ g', given = some g' → g = g') ∧
    Container.mounts mountOptions g o.buildContext = .ok spec.mounts
  last : spec.mounts.getLast? = some ⟨o.buildContext, spec.workdir, false⟩

/-- Everything may be called, but what is created is at home. -/
def homeward (o : Options) : Protocol Runtime.interface Unit :=
  .only fun c : Call => ∀ spec, c = .create spec → AtHome o spec

/-- The action creates nothing but at home, and what it returns meets a condition. -/
def Homed {α : Type} (o : Options) (act : Act α) (K : α → Prop) : Prop :=
  Follows (homeward o) act () fun r _ => ∀ a, r = .ok a → K a

section Homed
variable {α β : Type} {o : Options} {act : Act α} {K : α → Prop} {L : β → Prop}

theorem homed_pure {a : α} (h : K a) : Homed o (pure a) K := by
  intro b hb
  cases hb
  exact h

theorem homed_throw {e : Error} : Homed o (throw e) K := nofun

theorem homed_ofExcept {ε : Type} {wrap : ε → Error} {x : Except ε α} (h : ∀ a, x = .ok a → K a) :
    Homed o (ofExcept wrap x) K := by
  cases x with
  | error e => exact homed_throw
  | ok a => exact homed_pure (h a rfl)

theorem Homed.bind {f : α → Act β} (hact : Homed o act K) (hf : ∀ a, K a → Homed o (f a) L) :
    Homed o (act >>= f) L := by
  refine follows_bind.2 (Follows.mono hact ?_)
  intro r _ hr
  cases r with
  | error e => nofun
  | ok a => exact hf a (hr a rfl)

theorem homed_attempt {c : Call} (h : ∀ spec, c = .create spec → AtHome o spec) :
    Homed o (attempt c) fun _ => True :=
  follows_attempt.2 ⟨h, fun _ _ _ => trivial⟩

theorem homed_call {c : Call} (h : ∀ spec, c = .create spec → AtHome o spec) : Homed o (call c) fun _ => True :=
  (homed_attempt h).bind fun _ _ => homed_ofExcept fun _ _ => trivial

end Homed

section Start
variable {o : Options}

theorem homed_sourceOf : Homed o (sourceOf o) fun x => o.source = .docker x.1 x.2 := by
  unfold sourceOf
  split
  · next h => exact homed_pure h
  · exact homed_throw

theorem homed_imageOf : Homed o (imageOf o) fun _ => True := by
  unfold imageOf
  split
  · exact homed_pure trivial
  · exact homed_throw

theorem homed_graphOf (given : Option Graph) (image : String) :
    Homed o (graphOf given image) fun g => ∀ g', given = some g' → g = g' := by
  cases given with
  | some g =>
    apply homed_pure
    intro g' hg
    cases hg
    rfl
  | none =>
    refine .bind (homed_attempt fun _ => nofun) ?_
    intro r _
    split
    · exact (homed_ofExcept fun _ _ => trivial).bind fun _ _ => homed_pure nofun
    · exact homed_throw
    · exact homed_throw

theorem homed_devicesOf : Homed o (devicesOf o) fun _ => True := by
  apply (homed_ofExcept fun _ _ => trivial).bind
  intro devices _
  split
  · exact homed_pure trivial
  · have asked : Homed o hasGpu fun _ => True := .bind (homed_call fun _ => nofun) fun _ _ => homed_pure trivial
    apply asked.bind
    intro offered _
    split
    · exact homed_pure trivial
    · exact homed_throw

/-- A start is resolved to its own mount options, and to its own graph if it was given one. -/
theorem homed_resolve : Homed o (resolve o) fun a =>
    ∃ given, o.source = .docker given a.mountOptions ∧ ∀ g, given = some g → a.graph = g := by
  apply (homed_ofExcept fun _ _ => trivial).bind
  intro _ _
  apply homed_sourceOf.bind
  intro (given, mountOptions) hsource
  apply homed_imageOf.bind
  intro image _
  apply (homed_graphOf given image).bind
  intro g hg
  apply (homed_ofExcept fun _ _ => trivial).bind
  intro _ _
  apply homed_devicesOf.bind
  intro devices _
  exact homed_pure ⟨given, hsource, hg⟩

theorem homed_clean : Homed o (clean o.name o.forced) fun _ => True := by
  refine .bind (homed_attempt fun _ => nofun) ?_
  intro r _
  split
  · split
    · exact homed_throw
    · exact homed_call fun _ => nofun
  · exact homed_pure trivial
  · exact homed_throw

theorem homed_layOut (a : Resolved) (ssh : UInt16) : Homed o (layOut o a ssh) fun x =>
    Container.mounts a.mountOptions a.graph o.buildContext = .ok x.1 := by
  have made : Homed o (Plan.make freePort a.graph o.sshHost ssh) fun _ => True :=
    follows_make.mono fun _ _ _ _ _ => trivial
  apply (homed_ofExcept fun _ h => h).bind
  intro ms hms
  apply made.bind
  intro plan _
  exact homed_pure hms

theorem homed_bringUp (p : Engine.Patience) : Homed o (bringUp p o) fun _ => True := by
  have watches : Watches (homeward o) o.name (fun _ => True) fun _ => True :=
    ⟨fun _ _ => nofun, fun _ => trivial, fun _ _ => trivial⟩
  exact Follows.mono (follows_bringUp watches (fun _ => nofun) fun _ => trivial) fun _ _ _ _ _ => trivial

theorem atHome_specOf {given : Option Graph} {mountOptions : List String} {g : Graph} {ms : List Container.Mount}
    (hsource : o.source = .docker given mountOptions) (hg : ∀ g', given = some g' → g = g')
    (hms : Container.mounts mountOptions g o.buildContext = .ok ms) (image : String) (devices : List Gpu.Device)
    (ssh : UInt16) (plan : Plan) : AtHome o (specOf o image g devices ssh ms plan) where
  workdir := rfl
  mounts := ⟨given, mountOptions, g, hsource, hg, hms⟩
  last := by
    obtain ⟨options, -, rfl⟩ := Container.mounts_eq_ok_iff.1 hms
    exact List.getLast?_concat

/-- A start creates nothing but at home, whatever the runtime answers. -/
theorem homed_start (p : Engine.Patience) : Homed o (start p o) fun _ => True := by
  have picked : Homed o (Plan.pick freePort o.sshPort) fun _ => True :=
    follows_pick (fun _ _ _ _ => trivial) fun _ => nofun
  rw [start_eq]
  apply homed_resolve.bind
  intro a ⟨given, hsource, hg⟩
  apply picked.bind
  intro ssh _
  apply homed_clean.bind
  intro _ _
  apply (homed_layOut a ssh).bind
  intro (ms, plan) hms
  have created : Homed o (call (.create (specOf o a.image a.graph a.devices ssh ms plan))) fun _ => True := by
    apply homed_call
    intro spec hspec
    cases hspec
    exact atHome_specOf hsource hg hms ..
  apply created.bind
  intro id _
  apply (homed_bringUp p).bind
  intro _ _
  refine .bind (homed_call fun _ => nofun) ?_
  intro c _
  exact homed_pure trivial

/-- The working directory is home or a directory in it, that of the last part of the build context. The build context
is mounted there as the last of all mounts, and so it is in every container that a start creates. -/
theorem works_where_mounted (o : Options) :
    (∃ segments, Path.Segmented '/' o.buildContext.toList segments ∧
      ((∃ s, (Path.counted '.' segments).getLast? = some s ∧ s ≠ ['.', '.'] ∧
          o.workdir = "/home/envd/" ++ String.ofList s) ∨
        (∀ s, (Path.counted '.' segments).getLast? = some s → s = ['.', '.']) ∧ o.workdir = "/home/envd")) ∧
    (o.workdir = "/home/envd" ∨
      ∃ s : String, o.workdir = "/home/envd/" ++ s ∧ '/' ∉ s.toList ∧ s ≠ "" ∧ s ≠ "." ∧ s ≠ "..") ∧
    (∀ mountOptions g ms, Container.mounts mountOptions g o.buildContext = .ok ms ↔
      ∃ given, List.Forall₂ Graph.Mount.Spelled mountOptions given ∧
        ms = (given ++ g.mounts).map (fun m => ⟨m.source, m.destination, false⟩) ++
          [⟨o.buildContext, o.workdir, false⟩]) ∧
    ∀ p es res, Runs (start p o) es res → ∀ spec r, called (.create spec) r ∈ asked es → AtHome o spec := by
  have hsegments := Path.segmented_iff.2 (rfl : Text.piecesBy (· = '/') o.buildContext.toList = _)
  refine ⟨⟨_, hsegments, Naming.workdir_of_segmented hsegments⟩, Naming.workdir_at_home o.buildContext, ?_, ?_⟩
  · intro mountOptions g ms
    exact Container.mounts_eq_ok_iff
  · intro p es res hr spec r hmem
    obtain ⟨before, after, hes⟩ := List.append_of_mem hmem
    have hadmits := (Follows.admits (homed_start p) hr).1
    rw [hes] at hadmits
    exact (Protocol.admits_append.1 hadmits).2.1 spec rfl

end Start

end Local
end DevEnv
