import DevEnv.Gpu.Request

/-! Which of the ways to ask for GPUs wins. The strongest one that says something decides and the weaker ones are not
heard, except that a build graph with a count of zero still lets its CUDA base speak. -/
namespace DevEnv.Gpu

/-- What one of the ways to ask says. -/
inductive Voice where
  | refusal
  /-- A specification, without the blanks around it. -/
  | spec (text : String)
  | count (n : Int64)
  /-- The count of a build graph. -/
  | declared (n : Int64)
  /-- The CUDA base of a build graph. -/
  | base (cuda : String)

/-- What is asked for where this voice alone decides. A count of zero asks for nothing. -/
def Voice.request : Voice → Request
  | refusal => .none
  | spec text => .spec text
  | count n => .ofCount n
  | declared n => .ofCount n
  | base _ => .count (-1)

/-- All that a caller says about GPUs. -/
structure Wish where
  spec : Option String := none
  count : Option Int64 := none
  graph : Option Graph := none
  refused : Bool := false

namespace Wish

def request (w : Wish) : Request := Request.resolve w.spec w.count w.graph w.refused

def declared (w : Wish) : Option Int64 := w.graph.bind (·.gpuCount)

def base (w : Wish) : Option String := w.graph.bind (·.cuda)

/-- What each of the ways to ask says, from the strongest to the weakest. A blank specification says nothing. -/
def voices (w : Wish) : List (Option Voice) := [
  if w.refused then some .refusal else none,
  (w.spec.filter fun s => !Text.isAllBlank s).map fun s => .spec (Text.trim s),
  w.count.map .count,
  w.declared.map .declared,
  w.base.map .base]

def first (w : Wish) : Option Voice := w.voices.findSome? id

end Wish

/-- Rows of voices that are silent in the same places and say the same where they first speak. -/
inductive Agree {α : Type} : List (Option α) → List (Option α) → Prop
  | nil : Agree [] []
  | silent {row row' : List (Option α)} (rest : Agree row row') : Agree (none :: row) (none :: row')
  | heard (voice : α) (row row' : List (Option α)) : Agree (some voice :: row) (some voice :: row')

theorem Agree.findSome?_eq {α : Type} {row row' : List (Option α)} (h : Agree row row') :
    row.findSome? id = row'.findSome? id := by
  induction h with
  | nil => rfl
  | silent _ ih => exact ih
  | heard => rfl

/-- What comes of the first voice. A declared zero gives way to a base. -/
def decided (base : Option String) : Option Voice → Request
  | none => .none
  | some (.declared n) => if n = 0 ∧ base.isSome then .count (-1) else .ofCount n
  | some v => v.request

variable {w w' : Wish} {v : Voice} {g : Graph} {base base' : Option String}

theorem ofGraph_of_gpuCount {n : Int64} (h : g.gpuCount = some n) :
    Request.ofGraph g = decided g.cuda (some (.declared n)) := by
  by_cases hn : n = 0
  · cases hc : g.cuda <;> simp [Request.ofGraph, Graph.wantsGpu, Request.ofCount, Option.filter, decided, h, hn, hc]
  · simp [Request.ofGraph, Request.ofCount, Option.filter, decided, h, hn]

theorem ofGraph_of_gpuCount_eq_none (h : g.gpuCount = none) :
    Request.ofGraph g = decided g.cuda (g.cuda.map .base) := by
  cases hc : g.cuda <;> simp [Request.ofGraph, Graph.wantsGpu, decided, Voice.request, h, hc]

/-- Nothing but the first voice and the base bears on the request. -/
theorem Wish.request_eq_decided (w : Wish) : w.request = decided w.base w.first := by
  obtain ⟨spec, count, graph, refused⟩ := w
  simp only [request, base, first, voices, declared, Request.resolve]
  cases refused with
  | true => rfl
  | false =>
    cases spec.filter fun s => !Text.isAllBlank s with
    | some s => rfl
    | none =>
      cases count with
      | some n => rfl
      | none =>
        cases graph with
        | none => rfl
        | some g =>
          cases hn : g.gpuCount with
          | some n => simpa [hn] using ofGraph_of_gpuCount hn
          | none =>
            cases hc : g.cuda <;> simpa [hn, hc] using ofGraph_of_gpuCount_eq_none hn

theorem decided_of_ne (h : v ≠ .declared 0) : decided base (some v) = v.request := by
  cases v with
  | declared n =>
    have hn : n ≠ 0 := fun hn => h (hn ▸ rfl)
    simp [decided, Voice.request, hn]
  | _ => rfl

theorem decided_declared_zero_eq_none_iff : decided base (some (.declared 0)) = .none ↔ base = none := by
  cases base <;> simp [decided, Request.ofCount]

theorem decided_eq_decided_iff {f : Option Voice} :
    decided base f = decided base' f ↔ (f = some (.declared 0) → (base = none ↔ base' = none)) := by
  by_cases hf : f = some (.declared 0)
  · subst hf
    cases base <;> cases base' <;> simp [decided, Request.ofCount]
  · refine iff_of_true ?_ fun h => absurd h hf
    cases f with
    | none => rfl
    | some v =>
      have hv : v ≠ .declared 0 := fun h => hf (h ▸ rfl)
      rw [decided_of_ne hv, decided_of_ne hv]

/-- The first voice decides, and a count of zero is for nothing. Two callers who agree as far as that are given the
same, unless the first voice is a declared zero and only one of them has a base. -/
theorem request_of_agree (h : Agree w.voices w'.voices) :
    (w.request = w'.request ↔ (w.first = some (.declared 0) → (w.base = none ↔ w'.base = none))) ∧
      (∀ v, w.first = some v → v ≠ .declared 0 → w.request = v.request) ∧
      (w.first = some (.count 0) → w.request = .none) ∧
      (w.first = some (.declared 0) → (w.request = .none ↔ w.base = none)) := by
  have hfirst : w.first = w'.first := h.findSome?_eq
  refine ⟨?_, fun v hv hne => ?_, fun hv => ?_, fun hv => ?_⟩
  · rw [w.request_eq_decided, w'.request_eq_decided, ← hfirst]
    exact decided_eq_decided_iff
  · rw [w.request_eq_decided, hv, decided_of_ne hne]
  · rw [w.request_eq_decided, hv]
    rfl
  · rw [w.request_eq_decided, hv]
    exact decided_declared_zero_eq_none_iff

/-- With a count on the command line the graph is not heard. -/
theorem request_of_agree_count :
    Agree (Wish.voices { count := some 0, graph := some { cuda := some "11.8" } }) (Wish.voices { count := some 0 }) ∧
      Wish.request { count := some 0, graph := some { cuda := some "11.8" } } = Wish.request { count := some 0 } := by
  have h : Agree (Wish.voices { count := some 0, graph := some { cuda := some "11.8" } })
      (Wish.voices { count := some 0 }) :=
    .silent (.silent (.heard (Voice.count 0) [none, some (.base "11.8")] [none, none]))
  exact ⟨h, (request_of_agree h).1.2 nofun⟩

/-- A build graph that asks for no devices is given all of them for its CUDA base. -/
theorem declared_zero_gives_way :
    Agree (Wish.voices { graph := some { gpuCount := some 0, cuda := some "11.8" } })
        (Wish.voices { graph := some { gpuCount := some 0 } }) ∧
      Wish.first { graph := some { gpuCount := some 0, cuda := some "11.8" } } = some (.declared 0) ∧
      Wish.request { graph := some { gpuCount := some 0, cuda := some "11.8" } } = .count (-1) ∧
      Wish.request { graph := some { gpuCount := some 0 } } = .none :=
  ⟨.silent (.silent (.silent (.heard (Voice.declared 0) [some (.base "11.8")] [none]))), rfl, rfl, rfl⟩

end DevEnv.Gpu
