import ReactRuntime.Transport.TerminalView

/-!
# Runs of the terminal state

The view of a thread is made by the events of this thread and by the progress that comes while it is
selected. Whatever the server does for other threads in between leaves it alone.
-/
namespace ReactRuntime.Transport.TerminalUi
open ReactRuntime.Core Library Serde

/-- What an event does to the view that it goes to. -/
def ThreadView.step (lower : String → String) (now : Nat) (ev : TerminalEvent) (tv : ThreadView) :
    ThreadView :=
  match ev with
  | .subprocessProgress label detail => tv.applyProgress lower now label detail
  | ev => match ev.about now with
    | some (_, f) => { f tv with lastUpdate := now }
    | none => tv

/-- The thread that an event goes to. -/
def TerminalEvent.target (selected : Option String) (ev : TerminalEvent) : Option String :=
  match ev with
  | .subprocessProgress _ _ => selected
  | ev => (ev.about 0).map Prod.fst

/-- The events that go to a thread. -/
def eventsFor (threadId : String) : (selected : Option String) → List (Nat × TerminalEvent) →
    List (Nat × TerminalEvent)
  | _, [] => []
  | selected, e :: events =>
    let target := e.2.target selected
    let rest := eventsFor threadId (target <|> selected) events
    if target = some threadId then e :: rest else rest

/-- The view that a thread has after its own events. -/
def viewOf (lower : String → String) (threadId : String) : List (Nat × TerminalEvent) → Option ThreadView
  | [] => none
  | e :: events => some ((e :: events).foldl (fun tv e => tv.step lower e.1 e.2) (.new threadId e.1))

section
variable {lower : String → String} {now : Nat} {ev : TerminalEvent} {m : Model} {threadId : String}

/-- The selected thread has a view. -/
def Model.Tracks (m : Model) : Prop := ∀ threadId, m.selected = some threadId →
  (m.threads.get threadId).isSome = true

theorem get_touch (f : ThreadView → ThreadView) (t : String) : (m.touch now t f).threads.get threadId =
    if some t = some threadId then
      some { f ((m.threads.get threadId).getD (.new threadId now)) with lastUpdate := now }
    else m.threads.get threadId := by
  rw [Model.touch, SortedMap.get_insert]
  by_cases ht : threadId = t
  · subst ht
    rw [if_pos rfl, if_pos rfl]
  · rw [if_neg ht, if_neg fun h => ht (Option.some.inj h).symm]

theorem selected_applyEvent : (m.applyEvent lower now ev).selected = (ev.target m.selected <|> m.selected) := by
  cases ev with
  | subprocessProgress label detail =>
    unfold Model.applyEvent TerminalEvent.target
    dsimp only
    cases hselected : m.selected with
    | none => exact hselected
    | some t =>
      dsimp only
      cases m.threads.get t with
      | none => exact hselected
      | some tv => rfl
  | _ => rfl

/-- An event reaches one view at most. -/
theorem get_applyEvent (hm : m.Tracks) : (m.applyEvent lower now ev).threads.get threadId =
    if ev.target m.selected = some threadId then
      some (((m.threads.get threadId).getD (.new threadId now)).step lower now ev)
    else m.threads.get threadId := by
  cases ev with
  | subprocessProgress label detail =>
    unfold Model.applyEvent TerminalEvent.target ThreadView.step
    dsimp only
    cases hselected : m.selected with
    | none => rfl
    | some t =>
      obtain ⟨tv, htv⟩ := Option.isSome_iff_exists.mp (hm t hselected)
      dsimp only
      rw [htv]
      by_cases ht : t = threadId
      · subst ht
        simp [htv]
      · simp [ht, Ne.symm ht]
  | info text => exact (if_neg nofun).symm
  | shutdown => exact (if_neg nofun).symm
  | rawJson text => exact (if_neg nofun).symm
  | _ => exact get_touch _ _

theorem tracks_applyEvent (hm : m.Tracks) : (m.applyEvent lower now ev).Tracks := by
  intro t ht
  rw [get_applyEvent hm]
  split
  case isTrue => rfl
  case isFalse hother =>
    rw [selected_applyEvent] at ht
    cases htarget : ev.target m.selected with
    | none =>
      rw [htarget] at ht
      exact hm t ht
    | some u =>
      rw [htarget] at ht hother
      exact absurd ht hother

theorem tracks_default : Model.default.Tracks := fun _ h => nomatch h

theorem tracks_applyAll (hm : m.Tracks) (events : List (Nat × TerminalEvent)) :
    (m.applyAll lower events).Tracks := by
  induction events generalizing m with
  | nil => exact hm
  | cons e events ih => exact ih (tracks_applyEvent hm)

/-- The view of a thread goes on with the events of the thread. -/
theorem get_applyAll (hm : m.Tracks) (events : List (Nat × TerminalEvent)) :
    (m.applyAll lower events).threads.get threadId = match m.threads.get threadId with
      | none => viewOf lower threadId (eventsFor threadId m.selected events)
      | some tv => some ((eventsFor threadId m.selected events).foldl
          (fun tv e => tv.step lower e.1 e.2) tv) := by
  induction events generalizing m with
  | nil =>
    change m.threads.get threadId = _
    cases hget : m.threads.get threadId <;> rfl
  | cons e events ih =>
    rw [Model.applyAll, List.foldl_cons, ← Model.applyAll, ih (tracks_applyEvent hm),
      get_applyEvent hm, selected_applyEvent, eventsFor]
    by_cases htarget : e.2.target m.selected = some threadId
    · rw [if_pos htarget, if_pos htarget]
      cases m.threads.get threadId <;> rfl
    · rw [if_neg htarget, if_neg htarget]

theorem get_applyAll_default (lower : String → String) (threadId : String)
    (events : List (Nat × TerminalEvent)) :
    (Model.default.applyAll lower events).threads.get threadId =
      viewOf lower threadId (eventsFor threadId none events) := get_applyAll tracks_default events

/-- Picking out the events of a thread once more changes nothing. -/
theorem eventsFor_eventsFor {selected selected' : Option String}
    (h : selected = some threadId → selected' = some threadId) (events : List (Nat × TerminalEvent)) :
    eventsFor threadId selected' (eventsFor threadId selected events) =
      eventsFor threadId selected events := by
  induction events generalizing selected selected' with
  | nil => rfl
  | cons e events ih =>
    rw [eventsFor]
    split
    case isTrue htarget =>
      have htarget' : e.2.target selected' = some threadId := by
        cases hev : e.2 with
        | subprocessProgress label detail =>
          rw [hev] at htarget
          exact h htarget
        | _ =>
          rw [hev] at htarget
          exact htarget
      rw [eventsFor, htarget', if_pos rfl, htarget]
      exact congrArg (e :: ·) (ih fun _ => rfl)
    case isFalse htarget =>
      apply ih
      cases hfirst : e.2.target selected with
      | none => exact h
      | some t =>
        intro ht
        rw [hfirst] at htarget
        exact absurd ht htarget

end

/-- However the events of the threads are interleaved, the view of a thread is the one it would have from
its own events alone. Progress of a subprocess names no thread: it counts to the one that is selected
when it arrives. -/
theorem terminal_views_independent (lower : String → String) (threadId : String)
    (events : List (Nat × TerminalEvent)) :
    (Model.default.applyAll lower events).threads.get threadId =
      (Model.default.applyAll lower (eventsFor threadId none events)).threads.get threadId := by
  rw [get_applyAll_default, get_applyAll_default, eventsFor_eventsFor id]

end ReactRuntime.Transport.TerminalUi
