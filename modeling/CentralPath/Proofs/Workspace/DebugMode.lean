/-
  Debug mode is an observer. A caller at a console comes to the same end with the switch left off,
  with everything as it was left otherwise but for the records in the log; so do calls on solvers whose
  backend may behave in any way; and a block puts the switch back as it was, whatever happened inside.
-/
import CentralPath.Proofs.Journal.Following
import CentralPath.Proofs.Workspace.Bench
import CentralPath.Proofs.Workspace.Script

namespace CentralPath

namespace Journal.Registry

/-! ## Fewer records -/

/-- The second registry is the first one with part of what was written. The loggers of the package
are there. -/
def Unwatched (r r' : Registry) : Prop :=
  ∃ written, r' = { r with written } ∧ written.Sublist r.written ∧
    ∀ source ∈ Event.sources, (r.find? (Logger.fullName (some source))).isSome

variable {r r' : Registry}

theorem source_mem_sources (e : Event Float) : e.source ∈ Event.sources := by
  cases e <;> simp [Event.source, Event.sources]

/-- Where its logger is there, an event adds to what was written, and changes nothing else. -/
theorem exists_logEvent (h : ∀ source ∈ Event.sources, (r.find? (Logger.fullName (some source))).isSome)
    (e : Event Float) :
    ∃ added, ∀ written, logEvent { r with written } e = { r with written := written ++ added } := by
  obtain ⟨l, hl⟩ := Option.isSome_iff_exists.mp (h e.source (source_mem_sources e))
  have hlog (written : List (Stream × String)) :
      logEvent { r with written } e = record { r with written } l e.severity e.text := by
    have hfind : find? { r with written } (Logger.fullName (some e.source)) = some l := hl
    rw [logEvent, log, get, hfind]
  by_cases htakes : l.takes e.severity
  · exact ⟨_, fun written => by rw [hlog, record, if_pos htakes]⟩
  · exact ⟨[], fun written => by rw [hlog, record, if_neg htakes, List.append_nil]⟩

theorem Unwatched.logEvents {es es' : List (Event Float)} (h : r.Unwatched r')
    (hes : es'.Sublist es) : (es.foldl logEvent r).Unwatched (es'.foldl logEvent r') := by
  induction hes generalizing r r' with
  | slnil => exact h
  | cons e _ ih =>
    obtain ⟨written, rfl, hwritten, hloggers⟩ := h
    obtain ⟨added, hadded⟩ := exists_logEvent hloggers e
    refine ih ⟨written, ?_, ?_, ?_⟩
    all_goals rw [hadded r.written]
    · exact hwritten.trans (List.sublist_append_left _ _)
    · exact hloggers
  | cons_cons e _ ih =>
    obtain ⟨written, rfl, hwritten, hloggers⟩ := h
    obtain ⟨added, hadded⟩ := exists_logEvent hloggers e
    refine ih ⟨written ++ added, ?_, ?_, ?_⟩
    all_goals rw [hadded r.written]
    · exact hadded written
    · exact hwritten.append (.refl added)
    · exact hloggers

end Journal.Registry

/-! ## At the console -/

namespace Console

/-- The second console is the first one with the switch off and part of its records. All events have
been read. -/
structure Unwatched (c c' : Console) : Prop where
  workspace : c.workspace.Unwatched c'.workspace
  registry : c.registry.Unwatched c'.registry
  events : c.workspace.events = []

variable {c c' : Console} {β : Type}

theorem Unwatched.work (h : c.Unwatched c') {d : Desk Float β} (hd : d.IsTask) :
    (c'.work d).1 = (c.work d).1 ∧ (c.work d).2.Unwatched (c'.work d).2 := by
  obtain ⟨hanswer, events, hw, hevents, hsized⟩ := hd.oblivious c.workspace c'.workspace h.workspace
  have hwork (c : Console) : c.work d = ((d.run.run c.workspace).1,
      { workspace := { (d.run.run c.workspace).2 with events := [] }
        registry := (d.run.run c.workspace).2.events.foldl Journal.Registry.logEvent c.registry }) :=
    rfl
  rw [hwork, hwork, hw]
  exact ⟨hanswer, ⟨[], rfl, .refl [], hsized⟩, h.registry.logEvents hevents, rfl⟩

/-- The switch may be thrown, as long as it is left off on the other side. -/
theorem Unwatched.setDebug (h : c.Unwatched c') (on : Bool) :
    (c.setDebug on).Unwatched (c'.setDebug false) := by
  obtain ⟨events, hw, hevents, hsized⟩ := h.workspace
  refine ⟨⟨events, ?_, hevents, hsized⟩, h.registry, h.events⟩
  show { c'.workspace with debug := false } = _
  rw [hw]
  rfl

/-- A block leaves the switch as it was, and so does the one with the switch left off. -/
theorem Unwatched.withDebug (h : c.Unwatched c') (on : Bool) {body body' : Console → β × Console}
    (hbody : ∀ c c', c.Unwatched c' →
      (body' c').1 = (body c).1 ∧ (body c).2.Unwatched (body' c').2) :
    (c'.withDebug false body').1 = (c.withDebug on body).1 ∧
      (c.withDebug on body).2.Unwatched (c'.withDebug false body').2 := by
  obtain ⟨hanswer, hafter⟩ := hbody _ _ (h.setDebug on)
  have hoff : c'.workspace.debug = false := by
    obtain ⟨events, hw, -⟩ := h.workspace
    rw [hw]
  refine ⟨hanswer, ?_⟩
  show (Console.setDebug _ _).Unwatched (Console.setDebug _ c'.workspace.debug)
  rw [hoff]
  exact hafter.setDebug c.workspace.debug

theorem unwatched_start (stream : String) : (start stream).Unwatched (start stream) := by
  refine ⟨⟨[], rfl, .refl [], fun _ he => absurd he (Array.not_mem_empty _)⟩,
    ⟨_, rfl, .refl _, fun source hsource => ?_⟩, rfl⟩
  have hnames : (start stream).registry.names = Journal.Registry.initial.names :=
    Journal.Registry.names_adopt ..
  have hthere : ∀ source ∈ Journal.Event.sources,
      Journal.Logger.fullName (some source) ∈ Journal.Registry.initial.names := by decide
  obtain ⟨l, hl, hname⟩ := List.mem_map.mp (hnames ▸ hthere source hsource)
  exact List.find?_isSome.mpr ⟨l, hl, beq_iff_eq.mpr hname⟩

end Console

/-- A caller ends in the same way with the switch left off. -/
theorem Script.run_unwatched {β : Type} (s : Script β) {c c' : Console} (h : c.Unwatched c') :
    (s.unwatched.run c').1 = (s.run c).1 ∧ (s.run c).2.Unwatched (s.unwatched.run c').2 := by
  induction s generalizing c c' with
  | done b => exact ⟨rfl, h⟩
  | perform d hd next ih =>
    obtain ⟨hanswer, hafter⟩ := h.work hd
    have hrun : (perform d hd next).run c = (next (c.work d).1).run (c.work d).2 := rfl
    have hrun' : (perform d hd next).unwatched.run c' =
        (next (c'.work d).1).unwatched.run (c'.work d).2 := rfl
    rw [hrun, hrun', hanswer]
    exact ih _ hafter
  | setDebug on next ih => exact ih (h.setDebug on)
  | reloadDebug setting next ih => exact ih (h.setDebug (setting.any affirms))
  | withDebug on body next ihbody ih =>
    obtain ⟨hanswer, hafter⟩ := h.withDebug on fun _ _ => ihbody
    have hrun : (withDebug on body next).run c =
        (next (c.withDebug on body.run).1).run (c.withDebug on body.run).2 := rfl
    have hrun' : (withDebug on body next).unwatched.run c' =
        (next (c'.withDebug false body.unwatched.run).1).unwatched.run
          (c'.withDebug false body.unwatched.run).2 := rfl
    rw [hrun, hrun', hanswer]
    exact ih _ hafter

/-- Debug mode is an observer. Whatever callers do at a console, with the switch thrown as they like,
ends as it would with the switch left off, and leaves everything as it would but for the switch and the
records in the log. So do calls on solvers whose backend may behave in any way, each made with the
switch as it was then. A block puts the switch back as it was, whatever was done inside. -/
theorem debug_mode_observes :
    (∀ (stream : String) {β : Type} (s : Script β),
      (s.unwatched.run (.start stream)).1 = (s.run (.start stream)).1 ∧
      (s.unwatched.run (.start stream)).2.workspace =
        { (s.run (.start stream)).2.workspace with debug := false } ∧
      ∃ written : List (Journal.Stream × String),
        (s.unwatched.run (.start stream)).2.registry =
          { (s.run (.start stream)).2.registry with written } ∧
        written.Sublist (s.run (.start stream)).2.registry.written) ∧
    (∀ {σ α : Type} [Elementary α] (backend : Backend σ α) (directs : Nat → Direct.Solver α)
      (options : Nat → InteriorPoint.Options α) (state : σ)
      (calls : List (Bool × Σ β, Bench.Call σ α β)),
      let b := Bench.start directs options state
      let watched := Bench.performAll backend b calls
      let unwatched := Bench.performAll backend b (Bench.unwatched calls)
      unwatched.1 = watched.1 ∧
        ∃ events, unwatched.2 = { watched.2 with events } ∧ events.Sublist watched.2.events) ∧
    (∀ (c : Console) (on : Bool) {β : Type} (body : Console → β × Console),
      (c.withDebug on body).2.workspace.debug = c.workspace.debug) := by
  refine ⟨fun stream β s => ?_, fun backend directs options state calls => ?_, fun c on β body => rfl⟩
  · obtain ⟨hanswer, ⟨events, hworkspace, hsublist, -⟩, ⟨written, hregistry, hwritten, -⟩, hread⟩ :=
      s.run_unwatched (Console.unwatched_start stream)
    refine ⟨hanswer, ?_, written, hregistry, hwritten⟩
    rw [hread, List.sublist_nil] at hsublist
    rw [hworkspace, hsublist, ← hread]
  · obtain ⟨hanswers, events, hbench, hevents, -⟩ :=
      Bench.performAll_unwatched backend calls (Bench.unwatched_start directs options state)
    exact ⟨hanswers, events, hbench, hevents⟩

end CentralPath
