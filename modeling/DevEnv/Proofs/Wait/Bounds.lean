import DevEnv.Proofs.Wait.Outcome

/-! Bounds of a wait with a deadline: on its probes, on its rounds and its naps, and on what it still does
after the user has called it off. -/
namespace DevEnv.Watch
open Event

/-- From a time on, the clock is not seen to run backwards, and a nap lasts as long as it was meant to. -/
def Flows : Nat → List Event → Prop
  | _, [] => True
  | time, reading t :: es => time ≤ t.nanos ∧ Flows t.nanos es
  | time, slept span :: es => Flows (time + span.nanos) es
  | time, heard _ :: es => Flows time es
  | time, probed _ :: es => Flows time es
  | time, told _ :: es => Flows time es
  | time, ⟨.inl .freePort, _⟩ :: es => Flows time es

/-- Something is begun that takes time. -/
def Event.isAction : Event → Bool
  | probed _ => true
  | slept _ => true
  | _ => false

/-- So many intervals begin within a span. -/
def intervals (span interval : Nat) : Nat := (span + interval - 1) / interval

/-- Every nap is positive and no longer than a slice, and ends no later than the deadline and the time for the next
probe, counted from the last look at the clock. -/
def NapsFit (interval : Span) (deadline : Instant) : Instant → Option Instant → List Event → Prop
  | _, _, [] => True
  | _, _, probed _ :: reading t :: es => NapsFit interval deadline t (t.after? interval) es
  | _, next, reading t :: es => NapsFit interval deadline t next es
  | now, next, slept span :: es => (0 < span.nanos ∧ span.nanos ≤ slice.nanos ∧
      now.nanos + span.nanos ≤ deadline.nanos ∧ ∀ point, next = some point → now.nanos + span.nanos ≤ point.nanos) ∧
      NapsFit interval deadline now next es
  | now, next, _ :: es => NapsFit interval deadline now next es

/-- The naps, in order. -/
def naps (es : List Event) : List Span := es.filterMap fun
  | slept span => some span
  | _ => none

section Nap
variable {now : Instant} {ahead : List Instant}

private def clip (now : Instant) (span : Span) (limit : Instant) : Span := ⟨min span.nanos (now.spanTo limit).nanos⟩

private theorem foldl_clip_le (ahead : List Instant) (span : Span) : (ahead.foldl (clip now) span).nanos ≤ span.nanos ∧
    ∀ limit ∈ ahead, (ahead.foldl (clip now) span).nanos ≤ limit.nanos - now.nanos := by
  induction ahead generalizing span with
  | nil => exact ⟨Nat.le_refl _, nofun⟩
  | cons limit ahead ih =>
    obtain ⟨hle, hmore⟩ := ih (clip now span limit)
    refine ⟨Nat.le_trans hle (Nat.min_le_left _ _), List.forall_mem_cons.2 ⟨?_, hmore⟩⟩
    exact Nat.le_trans hle (Nat.min_le_right _ _)

private theorem foldl_clip_pos (h : ∀ limit ∈ ahead, now.nanos < limit.nanos) {span : Span} (hspan : 0 < span.nanos) :
    0 < (ahead.foldl (clip now) span).nanos := by
  induction ahead generalizing span with
  | nil => exact hspan
  | cons limit ahead ih =>
    obtain ⟨hlimit, hahead⟩ := List.forall_mem_cons.1 h
    exact ih hahead (Nat.lt_min.2 ⟨hspan, Nat.sub_pos_of_lt hlimit⟩)

theorem nap_le_slice (now : Instant) (ahead : List Instant) : (nap now ahead).nanos ≤ slice.nanos :=
  (foldl_clip_le ahead slice).1

theorem nap_le {limit : Instant} (h : limit ∈ ahead) : (nap now ahead).nanos ≤ limit.nanos - now.nanos :=
  (foldl_clip_le ahead slice).2 limit h

theorem nap_pos (h : ∀ limit ∈ ahead, now.nanos < limit.nanos) : 0 < (nap now ahead).nanos :=
  foldl_clip_pos h (by decide)

theorem lt_of_isReached {point : Instant} {limit : Option Instant} (h : isReached now limit = false)
    (hl : limit = some point) : now.nanos < point.nanos := by
  subst hl
  exact Nat.not_le.1 fun hle => Bool.eq_false_iff.1 h (isReached_eq_true_iff.2 ⟨point, rfl, hle⟩)

end Nap

variable {name : String} {timeout interval : Span} {deadline : Instant}
  {steps : Nat} {phase : Phase} {es : List Event} {r : Option (Except Error Unit)}

/-- The nap of a round is positive and fits in before the deadline and the next probe. -/
theorem nap_fits {now : Instant} {next : Option Instant} (hd : isReached now (some deadline) = false)
    (hn : isReached now next = false) :
    let span := nap now (next.toList ++ (some deadline).toList)
    0 < span.nanos ∧ span.nanos ≤ slice.nanos ∧ now.nanos + span.nanos ≤ deadline.nanos ∧
      ∀ point, next = some point → now.nanos + span.nanos ≤ point.nanos := by
  have hahead : ∀ limit ∈ next.toList ++ (some deadline).toList, now.nanos < limit.nanos := by
    intro limit hl
    rcases List.mem_append.1 hl with hl | hl
    · exact lt_of_isReached hn (Option.mem_toList.1 hl)
    · exact lt_of_isReached hd (Option.mem_toList.1 hl)
  have hfit {limit : Instant} (hl : limit ∈ next.toList ++ (some deadline).toList) :
      now.nanos + (nap now (next.toList ++ (some deadline).toList)).nanos ≤ limit.nanos := by
    have hle : (nap now (next.toList ++ (some deadline).toList)).nanos ≤ limit.nanos - now.nanos := nap_le hl
    have hlt := hahead limit hl
    omega
  exact ⟨nap_pos hahead, nap_le_slice _ _, hfit (by simp), fun point hp => hfit (by simp [hp])⟩

theorem Course.napsFit (h : Course name timeout interval (some deadline) steps phase es r) (now : Instant)
    (next : Option Instant) (hphase : phase = .probing ∨ phase = .resting next) :
    NapsFit interval deadline now next es := by
  induction h generalizing now next with
  | cutOff => trivial
  | calledOff => trivial
  | fault => trivial
  | ready => trivial
  | notReady h ih => exact ih _ _ (.inr rfl)
  | late hd => trivial
  | due hd hn h ih => exact ih _ _ (.inl rfl)
  | calledOffResting hd hn => trivial
  | slumber hd hn h ih =>
    obtain rfl : _ = next := Phase.resting.inj (hphase.resolve_left nofun)
    exact ⟨nap_fits hd hn, ih _ _ (.inr rfl)⟩

section Counts

theorem intervals_le {a b : Nat} (h : a ≤ b) (interval : Nat) : intervals a interval ≤ intervals b interval :=
  Nat.div_le_div_right (by omega)

/-- The first interval of a span, and those of what is left of it. -/
theorem intervals_eq_add_one {a interval : Nat} (ha : 0 < a) (hi : 0 < interval) :
    intervals a interval = intervals (a - interval) interval + 1 := by
  unfold intervals
  by_cases h : interval ≤ a
  · have hsplit : a + interval - 1 = (a - interval + interval - 1) + interval := by omega
    rw [hsplit, Nat.add_div_right _ hi]
  · have hone : a + interval - 1 = (a - 1) + interval := by omega
    have hzero : a - interval + interval - 1 < interval := by omega
    rw [hone, Nat.add_div_right _ hi, Nat.div_eq_of_lt (by omega), Nat.div_eq_of_lt hzero]

theorem intervals_zero {interval : Nat} (hi : 0 < interval) : intervals 0 interval = 0 :=
  Nat.div_eq_of_lt (by omega)

theorem nanos_of_after? {t point : Instant} {span : Span} (h : t.after? span = some point) :
    point.nanos = t.nanos + span.nanos := by
  unfold Instant.after? at h
  split at h
  · cases h
    rfl
  · cases h

/-- The probes that are still made before the deadline: one at once or at the next point, and one for each interval
that begins after it. -/
def probesLeft (interval : Span) (deadline : Instant) (time : Nat) : Phase → Nat
  | .probing => intervals (deadline.nanos - (time + interval.nanos)) interval.nanos + 1
  | .resting (some next) => intervals (deadline.nanos - next.nanos) interval.nanos
  | .resting none => 0

theorem Course.answers_le (h : Course name timeout interval (some deadline) steps phase es r) {time : Nat}
    (hflows : Flows time es) (hinterval : 0 < interval.nanos) :
    (answers es).length ≤ probesLeft interval deadline time phase := by
  induction h generalizing time with
  | cutOff => exact Nat.zero_le _
  | calledOff => exact Nat.zero_le _
  | fault => exact Nat.le_add_left _ _
  | ready => exact Nat.le_add_left _ _
  | @notReady n t es r h ih =>
    have hrest := ih hflows.2
    refine Nat.succ_le_succ (Nat.le_trans hrest ?_)
    cases hnext : t.after? interval with
    | none => exact Nat.zero_le _
    | some next =>
      have hnanos := nanos_of_after? hnext
      have htime : time ≤ t.nanos := hflows.1
      refine intervals_le ?_ _
      omega
  | late hd => exact Nat.zero_le _
  | @due n next t es r hd hn h ih =>
    obtain ⟨point, rfl, hpoint⟩ := isReached_eq_true_iff.1 hn
    have hlt := lt_of_isReached hd rfl
    calc (answers (reading t :: es)).length
      _ ≤ intervals (deadline.nanos - (t.nanos + interval.nanos)) interval.nanos + 1 := ih hflows.2
      _ = intervals (deadline.nanos - t.nanos) interval.nanos := by
        rw [intervals_eq_add_one (Nat.sub_pos_of_lt hlt) hinterval, Nat.sub_sub]
      _ ≤ intervals (deadline.nanos - point.nanos) interval.nanos := intervals_le (Nat.sub_le_sub_left hpoint _) _
  | calledOffResting hd hn => exact Nat.zero_le _
  | @slumber n next t es r hd hn h ih =>
    have hrest := ih hflows.2
    cases next <;> exact hrest

/-- Each nap brings the deadline nearer. -/
theorem Course.naps_le (h : Course name timeout interval (some deadline) steps phase es r) {time : Nat}
    (hflows : Flows time es) : (naps es).length ≤ deadline.nanos - time := by
  induction h generalizing time with
  | cutOff => exact Nat.zero_le _
  | calledOff => exact Nat.zero_le _
  | fault => exact Nat.zero_le _
  | ready => exact Nat.zero_le _
  | notReady h ih => exact Nat.le_trans (ih hflows.2) (Nat.sub_le_sub_left hflows.1 _)
  | late hd => exact Nat.zero_le _
  | due hd hn h ih => exact Nat.le_trans (ih hflows.2) (Nat.sub_le_sub_left hflows.1 _)
  | calledOffResting hd hn => exact Nat.zero_le _
  | @slumber n next t es r hd hn h ih =>
    have hrest := ih hflows.2
    have htime : time ≤ t.nanos := hflows.1
    obtain ⟨hpos, -, hfit, -⟩ := nap_fits hd hn
    refine Nat.le_trans (Nat.succ_le_succ hrest) ?_
    omega

/-- A wait that is cut off has spent its rounds on probes, on the ends of rests and on naps. -/
theorem Course.steps_le (h : Course name timeout interval (some deadline) steps phase es none) :
    steps ≤ 2 * (answers es).length + (naps es).length + if phase = .probing then 0 else 1 := by
  generalize hr : none = res at h
  induction h with
  | cutOff => exact Nat.zero_le _
  | calledOff => cases hr
  | fault => cases hr
  | ready => cases hr
  | @notReady n t es r h ih =>
    have hrest := ih hr
    have hanswers : (answers (heard false :: probed (.ok false) :: reading t :: es)).length =
        (answers es).length + 1 := rfl
    have hnaps : (naps (heard false :: probed (.ok false) :: reading t :: es)).length = (naps es).length := rfl
    simp only [reduceCtorEq, if_false, if_true] at hrest ⊢
    omega
  | late hd => cases hr
  | @due n next t es r hd hn h ih =>
    have hrest := ih hr
    have hanswers : (answers (reading t :: es)).length = (answers es).length := rfl
    have hnaps : (naps (reading t :: es)).length = (naps es).length := rfl
    simp only [reduceCtorEq, if_false, if_true] at hrest ⊢
    omega
  | calledOffResting hd hn => cases hr
  | @slumber n next t es r hd hn h ih =>
    have hrest := ih hr
    have hanswers (span : Span) :
        (answers (reading t :: heard false :: slept span :: es)).length = (answers es).length := rfl
    have hnaps (span : Span) :
        (naps (reading t :: heard false :: slept span :: es)).length = (naps es).length + 1 := rfl
    simp only [reduceCtorEq, if_false, hanswers, hnaps] at hrest ⊢
    omega

end Counts

section CallOff

/-- The actions that are begun. -/
def actions (es : List Event) : Nat := es.countP Event.isAction

/-- Whoever is heard to have called off the wait stays heard. -/
def CalledOff (es : List Event) : Prop := ∀ off, heard off ∈ es → off = true

theorem CalledOff.tail {e : Event} (h : CalledOff (e :: es)) : CalledOff es :=
  fun off hoff => h off (List.mem_cons_of_mem _ hoff)

/-- Nothing is begun once the wait is called off before a round. -/
theorem Course.actions_eq_zero {limit : Option Instant} (h : Course name timeout interval limit steps phase es r)
    (hoff : CalledOff es) : actions es = 0 := by
  induction h with
  | cutOff => rfl
  | calledOff => rfl
  | fault => cases hoff false List.mem_cons_self
  | ready => cases hoff false List.mem_cons_self
  | notReady h ih => cases hoff false List.mem_cons_self
  | late hd => rfl
  | due hd hn h ih => exact ih hoff.tail
  | calledOffResting hd hn => rfl
  | slumber hd hn h ih => cases hoff false (List.mem_cons_of_mem _ List.mem_cons_self)

/-- At whatever moment the wait is called off, at most one more action is begun. -/
def Heeds (es : List Event) : Prop := ∀ after, after <:+ es → CalledOff after → actions after ≤ 1

theorem heeds_nil : Heeds [] := by
  intro after hafter _
  rw [List.suffix_nil.1 hafter]
  exact Nat.zero_le _

theorem Heeds.cons {e : Event} (h : Heeds es) (hwhole : CalledOff (e :: es) → actions (e :: es) ≤ 1) :
    Heeds (e :: es) := by
  intro after hafter hoff
  rcases List.suffix_cons_iff.1 hafter with rfl | hafter
  · exact hwhole hoff
  · exact h after hafter hoff

theorem Heeds.look {e : Event} (h : Heeds es) (he : e.isAction = false) : Heeds (e :: es) := by
  refine h.cons fun hoff => ?_
  rw [actions, List.countP_cons_of_neg (Bool.eq_false_iff.1 he)]
  exact h es List.suffix_rfl hoff.tail

theorem Heeds.act {e : Event} (h : Heeds es) (hquiet : CalledOff es → actions es = 0) : Heeds (e :: es) := by
  refine h.cons fun hoff => ?_
  have hrest : es.countP Event.isAction = 0 := hquiet hoff.tail
  rw [actions, List.countP_cons, hrest]
  split <;> decide

theorem Course.heeds {limit : Option Instant} (h : Course name timeout interval limit steps phase es r) : Heeds es := by
  induction h with
  | cutOff => exact heeds_nil
  | calledOff => exact heeds_nil.look rfl
  | fault => exact (heeds_nil.act fun _ => rfl).look rfl
  | ready => exact (heeds_nil.act fun _ => rfl).look rfl
  | notReady h ih =>
    refine ((ih.look rfl).act fun hoff => ?_).look rfl
    exact h.actions_eq_zero hoff.tail
  | late hd => exact (heeds_nil.look rfl).look rfl
  | due hd hn h ih => exact ih.look rfl
  | calledOffResting hd hn => exact (heeds_nil.look rfl).look rfl
  | slumber hd hn h ih => exact ((ih.act h.actions_eq_zero).look rfl).look rfl

end CallOff

/-- A number of rounds in which a wait comes to its end. -/
def enoughSteps (timeout interval : Span) : Nat :=
  2 * max 1 (intervals timeout.nanos interval.nanos) + timeout.nanos + 1

/-- What a wait with a deadline does at most. -/
structure Bounds (timeout interval : Span) (start deadline : Instant) (es : List Event) : Prop where
  probes : (answers es).length ≤ max 1 (intervals timeout.nanos interval.nanos)
  naps : NapsFit interval deadline start none es
  heeds : Heeds es

/-- On a clock that does not run backwards, a wait with a deadline and a positive interval keeps within its bounds and
comes to an end. -/
theorem await_bounds (h : Action.Runs ((posed name timeout interval).await steps) es r) (hflows : Flows 0 es)
    (hinterval : 0 < interval.nanos) {start : Instant} (hstart : es.head? = some (reading start))
    (hdeadline : start.after? timeout = some deadline) :
    Bounds timeout interval start deadline es ∧
      (enoughSteps timeout interval ≤ steps → ∃ result, r = some result) := by
  obtain ⟨t, rest, rfl, hcourse⟩ := course_of_runs_await h
  obtain rfl : t = start := by
    injection hstart with hevent
    injection hevent
  rw [hdeadline] at hcourse
  have hnanos := nanos_of_after? hdeadline
  have hprobes : (answers rest).length ≤ max 1 (intervals timeout.nanos interval.nanos) := by
    have hle := hcourse.answers_le hflows.2 hinterval
    have hspan : deadline.nanos - (t.nanos + interval.nanos) = timeout.nanos - interval.nanos := by omega
    rw [probesLeft, hspan] at hle
    refine Nat.le_trans hle ?_
    rcases Nat.eq_zero_or_pos timeout.nanos with hzero | hpos
    · rw [hzero, Nat.zero_sub, intervals_zero hinterval]
      exact Nat.le_max_left _ _
    · rw [intervals_eq_add_one hpos hinterval]
      exact Nat.le_max_right _ _
  refine ⟨⟨hprobes, hcourse.napsFit t none (.inl rfl), hcourse.heeds.look rfl⟩, fun hsteps => ?_⟩
  cases r with
  | some result => exact ⟨result, rfl⟩
  | none =>
    have hnaps := hcourse.naps_le hflows.2
    have hrounds := hcourse.steps_le
    rw [if_pos rfl] at hrounds
    unfold enoughSteps at hsteps
    omega

/-- A wait for a second probe, with a nap up to the time for it. -/
def secondProbe : List Event :=
  [reading ⟨0⟩, heard false, probed (.ok false), reading ⟨1⟩, reading ⟨2⟩, heard false, slept ⟨4⟩, reading ⟨7⟩,
    heard false, probed (.ok true)]

theorem await_bounds_secondProbe : Flows 0 secondProbe ∧ Bounds ⟨30⟩ ⟨5⟩ ⟨0⟩ ⟨30⟩ secondProbe := by
  have hruns : Action.Runs ((posed "demo" ⟨30⟩ ⟨5⟩).await 4) secondProbe (some (.ok ())) :=
    .ask (.ask (.ask (.ask (.ask (.ask (.ask (.ask (.ask (.ask (.done _))))))))))
  have hflows : Flows 0 secondProbe := by simp [secondProbe, Flows]
  have hinterval : 0 < (⟨5⟩ : Span).nanos := by decide
  exact ⟨hflows, (await_bounds hruns hflows hinterval rfl rfl).1⟩

end DevEnv.Watch
