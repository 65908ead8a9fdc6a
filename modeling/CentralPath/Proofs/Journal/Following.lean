/-
  Loggers and the settings of the package. A session is a registry and the captures that are open in
  it, innermost first; its steps are the calls of a client, with a capture cut into the step that
  begins it and the one that ends it, so that what holds after every list of steps holds after every
  step of any run, inside captures as well as outside.

  `Registry.Consistent` is the invariant. Settings that a handler can be made from are followed by
  every logger; settings that were refused are in force all the same, and then some logger has lost
  its handler. Loggers are told apart by their place in the registry, which never changes.
-/
import CentralPath.Workspace.Console
import Mathlib

namespace CentralPath.Journal

/-! ## Loggers -/

/-- A logger has one handler, and it and its handler are as the settings want them. -/
structure Logger.Follows (l : Logger) (s : Settings) : Prop where
  level : l.level = s.level
  handlers : l.handlers = [s.handler]
  isolated : l.propagates = false

theorem Logger.follows_install (s : Settings) (l : Logger) : (l.install s).Follows s :=
  ⟨rfl, rfl, rfl⟩

theorem Logger.Follows.setLevel {l : Logger} {s : Settings} (h : l.Follows s) (level : Int) :
    (l.setLevel level).Follows { s with level } := by
  refine ⟨rfl, ?_, h.isolated⟩
  rw [Logger.setLevel, h.handlers]
  rfl

/-- The format that loggers start with can be filled. -/
theorem areAcceptable_standard : Settings.standard.areAcceptable = true := by decide

/-! ## Registries -/

namespace Registry

variable {r r' : Registry} {s : Settings} {l : Logger} {name : Option String} {x : Stream}

/-- The full names of all loggers, in the order of the loggers. -/
def names (r : Registry) : List String := r.loggers.map Logger.name

/-- Asking for a logger gives the one at a certain place and leaves everything as it is. -/
def HandsOut (r : Registry) (name : Option String) (place : Nat) : Prop :=
  ∃ l, r.get name = .ok (l, r) ∧ r.loggers[place]? = some l

/-- What a stream received, oldest first. -/
def received (r : Registry) (x : Stream) : List (Stream × String) :=
  r.written.filter (·.1 == x)

/-- What holds of a registry after every call. -/
structure Consistent (r : Registry) : Prop where
  distinct : r.names.Nodup
  nonempty : r.names ≠ []
  follow : r.settings.areAcceptable = true → ∀ l ∈ r.loggers, l.Follows r.settings
  muted : r.settings.areAcceptable = false → ∃ l ∈ r.loggers, l.handlers = []

/-- A new logger or one that was there before. -/
theorem get_eq_ok (h : r.get name = .ok (l, r')) :
    (r' = r ∧ r.find? (Logger.fullName name) = some l) ∨
      (r.find? (Logger.fullName name) = none ∧ r.settings.areAcceptable = true ∧
        l = Logger.create r.settings (Logger.fullName name) ∧
        r' = { r with loggers := r.loggers ++ [l] }) := by
  rw [get] at h
  split at h
  · rename_i found hfind
    cases h
    exact Or.inl ⟨rfl, hfind⟩
  · rename_i hfind
    split_ifs at h with hok
    cases h
    exact Or.inr ⟨hfind, hok, rfl, rfl⟩

/-- While a handler can be made from the settings, any logger can be had. -/
theorem exists_get (h : r.settings.areAcceptable = true) (name : Option String) :
    ∃ l r', r.get name = .ok (l, r') := by
  rw [get]
  split
  · exact ⟨_, _, rfl⟩
  · exact ⟨_, _, if_pos h⟩

theorem mem_of_get (h : r.get name = .ok (l, r')) : l ∈ r'.loggers := by
  rcases get_eq_ok h with ⟨rfl, hfind⟩ | ⟨-, -, -, rfl⟩
  · exact List.mem_of_find?_eq_some hfind
  · exact List.mem_append_right _ (List.mem_singleton_self l)

theorem name_of_get (h : r.get name = .ok (l, r')) : l.name = Logger.fullName name := by
  rcases get_eq_ok h with ⟨-, hfind⟩ | ⟨-, -, rfl, -⟩
  · exact eq_of_beq (List.find?_some hfind :)
  · rfl

theorem not_mem_names (h : r.find? (Logger.fullName name) = none) :
    Logger.fullName name ∉ r.names := by
  rw [names, List.mem_map]
  rintro ⟨l, hl, heq⟩
  exact List.find?_eq_none.mp h l hl (beq_iff_eq.mpr heq)

/-- A full name that is taken belongs to the logger at its place. -/
theorem Consistent.handsOut_iff (h : r.Consistent) {place : Nat} :
    r.HandsOut name place ↔ r.names[place]? = some (Logger.fullName name) := by
  rw [names, List.getElem?_map, Option.map_eq_some_iff]
  constructor
  · rintro ⟨l, hget, hl⟩
    exact ⟨l, hl, name_of_get hget⟩
  · rintro ⟨l, hl, hname⟩
    refine ⟨l, ?_, hl⟩
    have hfind : r.find? (Logger.fullName name) = some l := by
      obtain ⟨l', hl'⟩ : ∃ l', r.find? (Logger.fullName name) = some l' := by
        rw [← Option.isSome_iff_exists, find?, List.find?_isSome]
        exact ⟨l, List.mem_of_getElem? hl, beq_iff_eq.mpr hname⟩
      have hname' : l'.name = l.name :=
        (eq_of_beq (List.find?_some hl' :)).trans hname.symm
      rw [hl', List.inj_on_of_nodup_map h.distinct (List.mem_of_find?_eq_some hl')
        (List.mem_of_getElem? hl) hname']
    rw [get, hfind]

/-! ### Settings that are put in force -/

/-- Settings are in force once they were asked for, refused or not. -/
@[simp] theorem settings_adopt (r : Registry) (s : Settings) : (r.adopt s).2.settings = s := by
  rw [adopt]
  split_ifs
  · rfl
  · split <;> rfl

@[simp] theorem names_adopt (r : Registry) (s : Settings) : (r.adopt s).2.names = r.names := by
  rw [adopt]
  split_ifs
  · exact List.map_map ..
  · split
    · rfl
    · rename_i l ls hl
      rw [names, names, hl]
      rfl

@[simp] theorem captures_adopt (r : Registry) (s : Settings) :
    (r.adopt s).2.captures = r.captures := by
  rw [adopt]
  split_ifs
  · rfl
  · split <;> rfl

@[simp] theorem written_adopt (r : Registry) (s : Settings) :
    (r.adopt s).2.written = r.written := by
  rw [adopt]
  split_ifs
  · rfl
  · split <;> rfl

/-- Settings that a handler can be made from reach every logger, whatever it was like before. -/
theorem follows_of_mem_adopt (h : s.areAcceptable = true) (hl : l ∈ (r.adopt s).2.loggers) :
    l.Follows s := by
  rw [adopt, if_pos h] at hl
  obtain ⟨l', -, rfl⟩ := List.mem_map.mp hl
  exact Logger.follows_install s l'

/-- Handlers that loggers have after a change are new, or they were there before. -/
theorem handlers_of_mem_adopt {h : Handler} (hl : l ∈ (r.adopt s).2.loggers)
    (hh : h ∈ l.handlers) : h = s.handler ∨ ∃ l' ∈ r.loggers, h ∈ l'.handlers := by
  by_cases hok : s.areAcceptable = true
  · rw [(follows_of_mem_adopt hok hl).handlers, List.mem_singleton] at hh
    exact Or.inl hh
  · rw [adopt, if_neg hok] at hl
    split at hl
    · exact Or.inr ⟨l, hl, hh⟩
    · rename_i first rest hloggers
      rcases List.mem_cons.mp hl with rfl | hl
      · cases hh
      · exact Or.inr ⟨l, hloggers ▸ List.mem_cons_of_mem _ hl, hh⟩

theorem Consistent.adopt (h : r.Consistent) (s : Settings) : (r.adopt s).2.Consistent := by
  refine ⟨by rw [names_adopt]; exact h.distinct, by rw [names_adopt]; exact h.nonempty, ?_, ?_⟩
  · rw [settings_adopt]
    exact fun hok l hl => follows_of_mem_adopt hok hl
  · rw [settings_adopt]
    intro hok
    rw [Registry.adopt, if_neg (by rw [hok]; exact Bool.false_ne_true)]
    split
    · rename_i hnil
      exact absurd (by rw [names, hnil]; rfl) h.nonempty
    · rename_i first rest _
      exact ⟨first.mute, List.mem_cons_self, rfl⟩

theorem beginCapture_eq (r : Registry) (level : Int) (format : Option String) :
    r.beginCapture level format = adopt { r with captures := r.captures + 1 }
      ⟨level, format.getD defaultFormat, some r.nextCapture⟩ := rfl

/-! ### The other calls -/

theorem Consistent.congr (h : r.Consistent) (hset : r'.settings = r.settings)
    (hlog : r'.loggers = r.loggers) : r'.Consistent := by
  have hnames : r'.names = r.names := by rw [names, names, hlog]
  exact ⟨hnames ▸ h.distinct, hnames ▸ h.nonempty, by rw [hset, hlog]; exact h.follow,
    by rw [hset, hlog]; exact h.muted⟩

theorem Consistent.get (h : r.Consistent) (hget : r.get name = .ok (l, r')) : r'.Consistent := by
  rcases get_eq_ok hget with ⟨rfl, -⟩ | ⟨hfind, hok, rfl, rfl⟩
  · exact h
  · have hnames : names { r with loggers := r.loggers ++
        [Logger.create r.settings (Logger.fullName name)] } =
        r.names ++ [Logger.fullName name] := List.map_append
    refine ⟨?_, ?_, fun _ l hl => ?_, fun hbad => ?_⟩
    · rw [hnames]
      exact List.nodup_append_comm.mp (List.nodup_cons.mpr ⟨not_mem_names hfind, h.distinct⟩)
    · rw [hnames]
      exact List.append_ne_nil_of_right_ne_nil _ (List.cons_ne_nil _ _)
    · rcases List.mem_append.mp hl with hl | hl
      · exact h.follow hok l hl
      · rw [List.mem_singleton.mp hl]
        exact Logger.follows_install ..
    · exact Bool.noConfusion (hok.symm.trans hbad)

theorem Consistent.setLevel (h : r.Consistent) (level : Int) : (r.setLevel level).Consistent := by
  have hnames : (r.setLevel level).names = r.names := List.map_map ..
  refine ⟨hnames ▸ h.distinct, hnames ▸ h.nonempty, fun hok l hl => ?_, fun hbad => ?_⟩
  · obtain ⟨l', hl', rfl⟩ := List.mem_map.mp hl
    exact (h.follow hok l' hl').setLevel level
  · obtain ⟨l, hl, hnone⟩ := h.muted hbad
    exact ⟨l.setLevel level, List.mem_map_of_mem hl, by rw [Logger.setLevel, hnone]; rfl⟩

/-- Records change neither settings nor loggers. -/
theorem record_eq (r : Registry) (l : Logger) (level : Int) (text : String) :
    ∃ written, r.record l level text = { r with written } := by
  rw [record]
  split_ifs
  · exact ⟨_, rfl⟩
  · exact ⟨r.written, rfl⟩

theorem Consistent.log (h : r.Consistent) (name : Option String) (level : Int) (text : String) :
    (r.log name level text).2.Consistent := by
  rw [Registry.log]
  split
  · rename_i l r' hget
    obtain ⟨written, heq⟩ := record_eq r' l level text
    rw [heq]
    exact (h.get hget).congr rfl rfl
  · exact h

/-- The settings in force are followed by all loggers exactly if a handler can be made from them. -/
theorem Consistent.areAcceptable_iff (h : r.Consistent) :
    r.settings.areAcceptable = true ↔ ∀ l ∈ r.loggers, l.Follows r.settings := by
  refine ⟨h.follow, fun hall => ?_⟩
  by_contra hbad
  obtain ⟨l, hl, hnone⟩ := h.muted (Bool.eq_false_iff.mpr hbad)
  rw [(hall l hl).handlers] at hnone
  cases hnone

end Registry

/-! ## Sessions -/

/-- A call of a client, or one of the two ends of a capture. -/
inductive Step where
  | get (name : Option String)
  | setLevel (level : LevelChoice)
  | configure (level : LevelChoice) (format : Option String) (stream : Option Stream)
  | emit (name : Option String) (level : Int) (text : String)
  | enter (level : LevelChoice) (format : Option String)
  /-- The innermost capture ends, for whatever reason. -/
  | leave

/-- The step routes records to a stream by naming it. -/
def Step.Names (x : Stream) : Step → Prop
  | .configure _ _ stream => stream = some x
  | _ => False

/-- A capture that has not ended. -/
structure Block where
  /-- The settings that it began under. -/
  before : Settings
  stream : Stream

/-- A registry with the captures that are open, innermost first. -/
structure Session where
  registry : Registry
  blocks : List Block

namespace Session

variable {s s' : Session} {x : Stream} {steps body : List Step} {level : LevelChoice}
  {format : Option String}

/-- A session at which nothing has happened. -/
def start (stream : String) : Session := ⟨(Console.start stream).registry, []⟩

/-- The session after a step. A capture that is refused does not begin. -/
def step (s : Session) : Step → Session
  | .get name =>
    match s.registry.get name with
    | .ok (_, registry) => { s with registry }
    | .error _ => s
  | .setLevel level => { s with registry := s.registry.setLevel level.level }
  | .configure level format stream =>
    { s with registry := (s.registry.configure level.level format stream).2 }
  | .emit name level text => { s with registry := (s.registry.log name level text).2 }
  | .enter level format =>
    match s.registry.beginCapture level.level format with
    | (none, registry) => ⟨registry, ⟨s.registry.settings, s.registry.nextCapture⟩ :: s.blocks⟩
    | (some _, registry) => { s with registry }
  | .leave =>
    match s.blocks with
    | [] => s
    | b :: blocks => ⟨(s.registry.endCapture b.before).2, blocks⟩

/-- The session after a list of steps. -/
def run (s : Session) (steps : List Step) : Session := steps.foldl step s

theorem run_append (s : Session) (steps later : List Step) :
    s.run (steps ++ later) = (s.run steps).run later := List.foldl_append

theorem registry_enter (s : Session) (level : LevelChoice) (format : Option String) :
    (s.step (.enter level format)).registry = (s.registry.beginCapture level.level format).2 := by
  rw [step]
  split <;> rename_i h <;> rw [h]

/-! ### What every step keeps -/

theorem consistent_start (stream : String) : (start stream).registry.Consistent := by
  refine Registry.Consistent.adopt ⟨by decide, by decide, fun _ l hl => ?_, fun hbad => ?_⟩ _
  · obtain ⟨name, -, rfl⟩ := List.mem_map.mp hl
    exact Logger.follows_install ..
  · exact Bool.noConfusion (areAcceptable_standard.symm.trans hbad)

theorem consistent_step (h : s.registry.Consistent) (a : Step) : (s.step a).registry.Consistent := by
  cases a with
  | get name =>
    rw [step]
    split
    · rename_i hget
      exact h.get hget
    · exact h
  | setLevel level => exact h.setLevel _
  | configure => exact h.adopt _
  | emit => exact h.log ..
  | enter =>
    rw [registry_enter, Registry.beginCapture_eq]
    have : Registry.Consistent { s.registry with captures := s.registry.captures + 1 } :=
      h.congr rfl rfl
    exact this.adopt _
  | leave =>
    rw [step]
    split
    · exact h
    · exact h.adopt _

theorem consistent_run (h : s.registry.Consistent) (steps : List Step) :
    (s.run steps).registry.Consistent := by
  induction steps generalizing s with
  | nil => exact h
  | cons a steps ih => exact ih (consistent_step h a)

/-- No step takes a logger away or moves it to another place. -/
theorem names_step (s : Session) (a : Step) : s.registry.names <+: (s.step a).registry.names := by
  have hget : ∀ {name l r'}, s.registry.get name = .ok (l, r') → s.registry.names <+: r'.names := by
    intro name l r' h
    rcases Registry.get_eq_ok h with ⟨rfl, -⟩ | ⟨-, -, -, rfl⟩
    · exact List.prefix_rfl
    · exact (List.prefix_append _ _).map _
  cases a with
  | get name =>
    rw [step]
    split
    · exact hget ‹_›
    · exact List.prefix_rfl
  | setLevel level =>
    rw [show (s.step (.setLevel level)).registry.names = s.registry.names from List.map_map ..]
  | configure =>
    rw [step, Registry.configure, Registry.names_adopt]
  | emit name level text =>
    rw [step, Registry.log]
    split
    · rename_i l r' h
      obtain ⟨written, heq⟩ := Registry.record_eq r' l level text
      rw [heq]
      exact (hget h :)
    · exact List.prefix_rfl
  | enter =>
    rw [registry_enter, Registry.beginCapture_eq, Registry.names_adopt]
    exact List.prefix_rfl
  | leave =>
    rw [step]
    split
    · exact List.prefix_rfl
    · rw [Registry.endCapture, Registry.names_adopt]

theorem names_run (s : Session) (steps : List Step) :
    s.registry.names <+: (s.run steps).registry.names := by
  induction steps generalizing s with
  | nil => exact List.prefix_rfl
  | cons a steps ih => exact (names_step s a).trans (ih _)

/-- A logger that was handed out once is handed out for its name ever after. -/
theorem exists_handsOut (h : s.registry.Consistent) {name : Option String} {l : Logger}
    {r : Registry} (hget : s.registry.get name = .ok (l, r)) :
    ∃ place, r.loggers[place]? = some l ∧
      ∀ later other, Logger.fullName other = Logger.fullName name →
        ((s.step (.get name)).run later).registry.HandsOut other place := by
  have hstep : (s.step (.get name)).registry = r := by rw [step, hget]
  obtain ⟨place, hl⟩ := List.getElem?_of_mem (Registry.mem_of_get hget)
  refine ⟨place, hl, fun later other hother => ?_⟩
  have hcons := consistent_run (consistent_step h (.get name)) later
  obtain ⟨more, hmore⟩ := names_run (s.step (.get name)) later
  rw [hcons.handsOut_iff, hother, ← hmore, hstep]
  have hplace : r.names[place]? = some (Logger.fullName name) := by
    rw [Registry.names, List.getElem?_map, hl, Option.map_some, Registry.name_of_get hget]
  rw [List.getElem?_append_left (List.getElem?_eq_some_iff.mp hplace).1, hplace]

/-! ### Captures inside one another -/

theorem blocks_step (s : Session) (a : Step) :
    (s.step a).blocks = s.blocks ∨ (∃ b, (s.step a).blocks = b :: s.blocks) ∨
      ∃ b, s.blocks = b :: (s.step a).blocks := by
  cases a with
  | get name =>
    rw [step]
    split <;> exact Or.inl rfl
  | setLevel => exact Or.inl rfl
  | configure => exact Or.inl rfl
  | emit => exact Or.inl rfl
  | enter =>
    rw [step]
    split
    · exact Or.inr (Or.inl ⟨_, rfl⟩)
    · exact Or.inl rfl
  | leave =>
    rw [step]
    split
    · exact Or.inl rfl
    · exact Or.inr (Or.inr ⟨_, ‹_›⟩)

/-- At least `depth` captures are open all along. -/
def Inside (depth : Nat) : Session → List Step → Prop
  | s, [] => depth ≤ s.blocks.length
  | s, a :: steps => depth ≤ s.blocks.length ∧ Inside depth (s.step a) steps

instance decidableInside (depth : Nat) :
    (s : Session) → (steps : List Step) → Decidable (s.Inside depth steps)
  | s, [] => inferInstanceAs (Decidable (depth ≤ s.blocks.length))
  | s, a :: steps =>
    have := decidableInside depth (s.step a) steps
    inferInstanceAs (Decidable (depth ≤ s.blocks.length ∧ (s.step a).Inside depth steps))

theorem Inside.le {depth : Nat} (h : s.Inside depth steps) : depth ≤ s.blocks.length := by
  cases steps with
  | nil => exact h
  | cons => exact h.1

/-- Captures that do not end stay below those that begin and end in the meantime. -/
theorem Inside.suffix_run {below : List Block} (h : s.Inside below.length steps)
    (hs : below <:+ s.blocks) : below <:+ (s.run steps).blocks := by
  induction steps generalizing s with
  | nil => exact hs
  | cons a steps ih =>
    refine ih h.2 ?_
    rcases blocks_step s a with heq | ⟨b, heq⟩ | ⟨b, heq⟩
    · rwa [heq]
    · rw [heq]
      exact hs.trans (List.suffix_cons _ _)
    · rcases List.suffix_cons_iff.mp (heq ▸ hs) with hall | hrest
      · have := h.2.le
        rw [hall, List.length_cons] at this
        omega
      · exact hrest

/-- A capture begins at a session, and once the steps of its body are done it is the innermost one
again. -/
structure Encloses (s : Session) (level : LevelChoice) (format : Option String)
    (body : List Step) : Prop where
  begins : (s.registry.beginCapture level.level format).1 = none
  inside : (s.step (.enter level format)).Inside (s.blocks.length + 1) body
  closed : ((s.step (.enter level format)).run body).blocks.length = s.blocks.length + 1

theorem Encloses.step_enter (h : s.Encloses level format body) :
    s.step (.enter level format) = ⟨(s.registry.beginCapture level.level format).2,
      ⟨s.registry.settings, s.registry.nextCapture⟩ :: s.blocks⟩ := by
  have hbegins := h.begins
  rw [step]
  split
  · rename_i registry heq
    rw [heq]
  · rename_i e registry heq
    rw [heq] at hbegins
    cases hbegins

/-- At the end of its body a capture finds the session as deep in captures as it was, and knows the
settings that it began under. -/
theorem Encloses.blocks_run (h : s.Encloses level format body) :
    ((s.step (.enter level format)).run body).blocks =
      ⟨s.registry.settings, s.registry.nextCapture⟩ :: s.blocks := by
  have hbelow : ⟨s.registry.settings, s.registry.nextCapture⟩ :: s.blocks <:+
      ((s.step (.enter level format)).run body).blocks :=
    Inside.suffix_run h.inside (by rw [h.step_enter])
  exact (hbelow.eq_of_length (by rw [h.closed]; rfl)).symm

/-- A whole capture: its beginning, its body and its end. -/
theorem Encloses.run_eq (h : s.Encloses level format body) :
    s.run (.enter level format :: body ++ [.leave]) =
      ⟨(((s.step (.enter level format)).run body).registry.endCapture s.registry.settings).2,
        s.blocks⟩ := by
  change (s.step (.enter level format)).run (body ++ [.leave]) = _
  rw [run_append]
  change ((s.step (.enter level format)).run body).step .leave = _
  have hblocks := h.blocks_run
  generalize (s.step (.enter level format)).run body = inner at hblocks ⊢
  rw [step, hblocks]

/-- A capture at the console is a capture of the session whose body is what the console runs. -/
theorem registry_capture (c : Console) {blocks : List Block}
    (h : (Session.mk c.registry blocks).Encloses level format body) :
    (c.capture level.level format fun c' =>
        ((), { c' with registry := ((Session.mk c'.registry
          (⟨c.registry.settings, c.registry.nextCapture⟩ :: blocks)).run body).registry })).2.registry =
      ((Session.mk c.registry blocks).run (.enter level format :: body ++ [.leave])).registry := by
  rw [h.run_eq, h.step_enter]
  have hbegins := h.begins
  rw [Console.capture]
  split
  · rename_i e registry heq
    rw [heq] at hbegins
    cases hbegins
  · rename_i registry heq
    rw [heq]
    dsimp only
    split <;> rename_i h' <;> rw [h']

/-! ### Numbers of captures -/

/-- A capture that begins, or tries to, takes the next number; nothing else takes one. -/
theorem captures_step (s : Session) (a : Step) :
    (s.step a).registry.captures =
      s.registry.captures + match a with | .enter .. => 1 | _ => 0 := by
  have hget : ∀ {name l r'}, s.registry.get name = .ok (l, r') →
      r'.captures = s.registry.captures := by
    intro name l r' h
    rcases Registry.get_eq_ok h with ⟨rfl, -⟩ | ⟨-, -, -, rfl⟩ <;> rfl
  cases a with
  | get name =>
    rw [Session.step]
    split
    · exact hget ‹_›
    · rfl
  | setLevel => rfl
  | configure => exact Registry.captures_adopt ..
  | emit name level text =>
    rw [Session.step, Registry.log]
    split
    · rename_i l r' h
      obtain ⟨written, heq⟩ := Registry.record_eq r' l level text
      rw [heq]
      exact (hget h :)
    · rfl
  | enter => rw [registry_enter, Registry.beginCapture_eq, Registry.captures_adopt]
  | leave =>
    rw [Session.step]
    split
    · rfl
    · exact Registry.captures_adopt ..

theorem captures_le_run (s : Session) (steps : List Step) :
    s.registry.captures ≤ (s.run steps).registry.captures := by
  induction steps generalizing s with
  | nil => exact Nat.le_refl _
  | cons a steps ih => exact Nat.le_trans (by rw [captures_step]; omega) (ih (s.step a))

/-! ### Streams that nothing is routed to -/

/-- No record goes to the stream, now or once open captures have ended. -/
structure Avoids (s : Session) (x : Stream) : Prop where
  settings : s.registry.settings.stream ≠ some x
  handlers : ∀ l ∈ s.registry.loggers, ∀ h ∈ l.handlers, h.stream ≠ x
  blocks : ∀ b ∈ s.blocks, b.before.stream ≠ some x

theorem stream_handler_ne {p : Settings} (hx : x ≠ .standard) (h : p.stream ≠ some x) :
    p.handler.stream ≠ x := by
  rw [Settings.handler]
  rcases hp : p.stream with _ | y
  · exact hx.symm
  · rw [hp] at h
    exact fun heq => h (congrArg some heq)

/-- Settings for another stream keep a session away from the stream. -/
theorem Avoids.adopt (h : s.Avoids x) (hx : x ≠ .standard) {p : Settings} (hp : p.stream ≠ some x)
    {blocks : List Block} (hblocks : ∀ b ∈ blocks, b.before.stream ≠ some x) (captures : Nat) :
    Avoids ⟨(Registry.adopt { s.registry with captures } p).2, blocks⟩ x := by
  refine ⟨by rwa [Registry.settings_adopt], fun l hl g hg => ?_, hblocks⟩
  rcases Registry.handlers_of_mem_adopt hl hg with rfl | ⟨l', hl', hg'⟩
  · exact stream_handler_ne hx hp
  · exact h.handlers l' hl' g hg'

theorem Avoids.get (h : s.Avoids x) (hx : x ≠ .standard) {name : Option String} {l : Logger}
    {registry : Registry} (hget : s.registry.get name = .ok (l, registry)) :
    Avoids { s with registry } x := by
  rcases Registry.get_eq_ok hget with ⟨rfl, -⟩ | ⟨-, -, rfl, rfl⟩
  · exact h
  · refine ⟨h.settings, fun l hl g hg => ?_, h.blocks⟩
    rcases List.mem_append.mp hl with hl | hl
    · exact h.handlers l hl g hg
    · rw [List.mem_singleton.mp hl] at hg
      rw [List.mem_singleton.mp hg]
      exact stream_handler_ne hx h.settings

/-- What a logger writes does not reach a stream that none of its handlers has. -/
theorem received_record {r : Registry} {l : Logger} (h : ∀ g ∈ l.handlers, g.stream ≠ x)
    (level : Int) (text : String) : (r.record l level text).received x = r.received x := by
  rw [Registry.record]
  split_ifs
  · rw [Registry.received, Registry.received, List.filter_append]
    refine (congrArg _ (List.filter_eq_nil_iff.mpr fun w hw => ?_)).trans (List.append_nil _)
    rw [Registry.writeThrough, List.mem_filterMap] at hw
    obtain ⟨g, hg, hw⟩ := hw
    obtain ⟨out, -, rfl⟩ := Option.map_eq_some_iff.mp hw
    exact fun heq => h g (List.mem_of_mem_filter hg) (eq_of_beq heq)
  · rfl

/-- A record written at a logger does not reach the stream. -/
theorem Avoids.emit (h : s.Avoids x) (hx : x ≠ .standard) (name : Option String) (level : Int)
    (text : String) :
    (s.step (.emit name level text)).Avoids x ∧
      (s.step (.emit name level text)).registry.received x = s.registry.received x := by
  rw [Session.step, Registry.log]
  split
  · rename_i l registry hget
    have havoid := h.get hx hget
    obtain ⟨written, heq⟩ := Registry.record_eq registry l level text
    have hreceived := received_record (r := registry)
      (havoid.handlers l (Registry.mem_of_get hget)) level text
    dsimp only
    rw [hreceived]
    refine ⟨?_, ?_⟩
    · rw [heq]
      exact ⟨havoid.settings, havoid.handlers, havoid.blocks⟩
    · rcases Registry.get_eq_ok hget with ⟨rfl, -⟩ | ⟨-, -, -, rfl⟩ <;> rfl
  · exact ⟨h, rfl⟩

/-- A capture that begins routes records to its own stream alone. -/
theorem Avoids.enter (h : s.Avoids x) (hx : x ≠ .standard)
    (hnext : s.registry.nextCapture ≠ x) (level : LevelChoice) (format : Option String) :
    (s.step (.enter level format)).Avoids x ∧
      (s.step (.enter level format)).registry.received x = s.registry.received x := by
  have hp : some s.registry.nextCapture ≠ some x := fun heq => hnext (Option.some.inj heq)
  have hwritten : (s.step (.enter level format)).registry.written = s.registry.written := by
    rw [registry_enter]
    exact Registry.written_adopt ..
  refine ⟨?_, congrArg _ hwritten⟩
  rw [Session.step]
  split
  · rename_i registry heq
    have hblocks : ∀ b ∈ (⟨s.registry.settings, s.registry.nextCapture⟩ : Block) :: s.blocks,
        b.before.stream ≠ some x :=
      List.forall_mem_cons.mpr ⟨h.settings, h.blocks⟩
    have := h.adopt hx (p := ⟨level.level, format.getD defaultFormat,
      some s.registry.nextCapture⟩) hp hblocks (s.registry.captures + 1)
    rwa [show (Registry.adopt { s.registry with captures := s.registry.captures + 1 } _).2 =
      registry from congrArg Prod.snd heq] at this
  · rename_i e registry heq
    have := h.adopt hx (p := ⟨level.level, format.getD defaultFormat,
      some s.registry.nextCapture⟩) hp h.blocks (s.registry.captures + 1)
    rwa [show (Registry.adopt { s.registry with captures := s.registry.captures + 1 } _).2 =
      registry from congrArg Prod.snd heq] at this

/-- The stream of a capture that does not begin here is not routed to by a step that does not name
it. -/
theorem Avoids.step {number : Nat} (h : s.Avoids (.captured number)) {a : Step}
    (hname : ¬a.Names (.captured number))
    (hother : (s.step a).registry.captures ≤ number ∨ number < s.registry.captures) :
    (s.step a).Avoids (.captured number) ∧
      (s.step a).registry.received (.captured number) =
        s.registry.received (.captured number) := by
  have hx : Stream.captured number ≠ .standard := nofun
  cases a with
  | get name =>
    rw [Session.step]
    split
    · rename_i l registry hget
      refine ⟨h.get hx hget, ?_⟩
      rcases Registry.get_eq_ok hget with ⟨rfl, -⟩ | ⟨-, -, -, rfl⟩ <;> rfl
    · exact ⟨h, rfl⟩
  | setLevel level =>
    refine ⟨⟨h.settings, fun l hl g hg => ?_, h.blocks⟩, rfl⟩
    obtain ⟨l', hl', rfl⟩ := List.mem_map.mp hl
    obtain ⟨g', hg', rfl⟩ := List.mem_map.mp hg
    exact h.handlers l' hl' g' hg'
  | configure level format stream =>
    have hp : stream ≠ some (.captured number) := hname
    exact ⟨h.adopt hx hp h.blocks s.registry.captures, congrArg _ (Registry.written_adopt ..)⟩
  | emit name level text => exact h.emit hx name level text
  | enter level format =>
    refine h.enter hx (fun heq => ?_) level format
    have hnext := Stream.captured.inj heq
    have hcount : (s.step (.enter level format)).registry.captures = s.registry.captures + 1 :=
      captures_step s _
    omega
  | leave =>
    rw [Session.step]
    split
    · exact ⟨h, rfl⟩
    · rename_i b blocks heq
      have hall := List.forall_mem_cons.mp (heq ▸ h.blocks)
      exact ⟨h.adopt hx hall.1 hall.2 s.registry.captures, congrArg _ (Registry.written_adopt ..)⟩

/-- A run stays away from the stream of a capture that begins after it or began before it, unless a
step names that stream. -/
theorem Avoids.run {number : Nat} (h : s.Avoids (.captured number))
    (hnames : ∀ a ∈ steps, ¬a.Names (.captured number))
    (hother : (s.run steps).registry.captures ≤ number ∨ number < s.registry.captures) :
    (s.run steps).Avoids (.captured number) ∧
      (s.run steps).registry.received (.captured number) =
        s.registry.received (.captured number) := by
  induction steps generalizing s with
  | nil => exact ⟨h, rfl⟩
  | cons a steps ih =>
    have hrest := List.forall_mem_cons.mp hnames
    have hlater : (s.step a).registry.captures ≤ (s.run (a :: steps)).registry.captures :=
      captures_le_run (s.step a) steps
    have hearlier := captures_step s a
    obtain ⟨havoid, hsame⟩ := h.step hrest.1 (by omega)
    obtain ⟨havoid', hsame'⟩ := ih havoid hrest.2 (by
      change (s.run (a :: steps)).registry.captures ≤ number ∨ _
      omega)
    exact ⟨havoid', hsame'.trans hsame⟩

/-! ### Every run -/

theorem settings_start (stream : String) : (start stream).registry.settings =
    ⟨warningLevel, defaultFormat, some (.named stream)⟩ := Registry.settings_adopt ..

theorem avoids_start (stream : String) (number : Nat) : (start stream).Avoids (.captured number) := by
  have hstream : (start stream).registry.settings.stream ≠ some (.captured number) := by
    rw [settings_start]
    nofun
  have hok : (start stream).registry.settings.areAcceptable = true := by
    rw [settings_start]
    exact areAcceptable_standard
  refine ⟨hstream, fun l hl g hg => ?_, List.forall_mem_nil _⟩
  rw [((consistent_start stream).follow hok l hl).handlers, List.mem_singleton] at hg
  rw [hg]
  exact stream_handler_ne nofun hstream

/-- A capture is over at its end: the settings are those that it began under, and if loggers could
follow these, nothing is written to its stream any more unless a step names it. -/
theorem Encloses.restores (h : s.Encloses level format body) (havoid : s.Avoids s.registry.nextCapture)
    (hok : s.registry.settings.areAcceptable = true) {later : List Step}
    (hlater : ∀ a ∈ later, ¬a.Names s.registry.nextCapture) :
    ((s.run (.enter level format :: body ++ [.leave])).run later).registry.received
        s.registry.nextCapture =
      (s.run (.enter level format :: body ++ [.leave])).registry.received
        s.registry.nextCapture := by
  have hcount : s.registry.captures <
      (s.run (.enter level format :: body ++ [.leave])).registry.captures := by
    have hle := captures_le_run (s.step (.enter level format)) (body ++ [.leave])
    rw [captures_step] at hle
    exact hle
  have hrun := h.run_eq
  refine (Avoids.run ⟨?_, fun l hl g hg => ?_, ?_⟩ hlater (Or.inr hcount)).2
  · rw [hrun, Registry.endCapture, Registry.settings_adopt]
    exact havoid.settings
  · rw [hrun] at hl
    have hfollows : l.Follows s.registry.settings := Registry.follows_of_mem_adopt hok hl
    rw [hfollows.handlers, List.mem_singleton] at hg
    rw [hg]
    exact stream_handler_ne nofun havoid.settings
  · rw [hrun]
    exact havoid.blocks

/-- After every step of every run all loggers follow the settings, unless the settings in force were
refused; a name has one logger, which keeps its place; and a capture leaves no trace in settings and
no way to its stream, whatever its body did. -/
theorem run_follows_settings (stream : String) (steps : List Step) :
    let s := (start stream).run steps
    (s.registry.settings.areAcceptable = true ↔
      ∀ l ∈ s.registry.loggers, l.Follows s.registry.settings) ∧
    s.registry.names.Nodup ∧
    (s.registry.settings.areAcceptable = true → ∀ name, ∃ l r, s.registry.get name = .ok (l, r)) ∧
    (∀ name l r, s.registry.get name = .ok (l, r) → ∃ place, r.loggers[place]? = some l ∧
      ∀ later other, Logger.fullName other = Logger.fullName name →
        ((s.step (.get name)).run later).registry.HandsOut other place) ∧
    ∀ level format body, s.Encloses level format body →
      let after := s.run (.enter level format :: body ++ [.leave])
      after.registry.settings = s.registry.settings ∧ after.blocks = s.blocks ∧
      (s.registry.settings.areAcceptable = true → ∀ later,
        (∀ a ∈ steps ++ later, ¬a.Names s.registry.nextCapture) →
        (after.run later).registry.received s.registry.nextCapture =
          after.registry.received s.registry.nextCapture) := by
  have hcons := consistent_run (consistent_start stream) steps
  refine ⟨hcons.areAcceptable_iff, hcons.distinct, Registry.exists_get,
    fun name l r => exists_handsOut hcons, ?_⟩
  intro level format body h
  refine ⟨?_, ?_, fun hok later hnames => ?_⟩
  · rw [h.run_eq]
    exact Registry.settings_adopt ..
  · rw [h.run_eq]
  · obtain ⟨hsteps, hlater⟩ := List.forall_mem_append.mp hnames
    have havoid := (avoids_start stream _).run hsteps (Or.inl (Nat.le_refl _))
    exact h.restores havoid.1 hok hlater

/-- Changes of level, format and stream inside a capture. -/
def reconfigured : List Step :=
  [.setLevel (.number 40), .configure (.named "info") (some "%(message)s") none,
    .get (some "fresh"), .enter (.named "debug") none, .leave]

/-- A capture in which all settings change and another capture begins and ends. -/
theorem run_follows_settings_reconfigured :
    let s := (start "default").run [.get (some "fresh")]
    let after := s.run (.enter (.number 10) none :: reconfigured ++ [.leave])
    s.Encloses (.number 10) none reconfigured ∧
      after.registry.settings = ⟨30, defaultFormat, some (.named "default")⟩ ∧
      (after.run [.emit (some "fresh") 40 "late"]).registry.received (.captured 0) =
        after.registry.received (.captured 0) := by
  have hbegins : (((start "default").run [.get (some "fresh")]).registry.beginCapture 10
      none).1 = none := by rfl
  have hblocks : ((((start "default").run [.get (some "fresh")]).step
      (.enter (.number 10) none)).run reconfigured).blocks.length = 1 := by decide +kernel
  have hencloses : ((start "default").run [.get (some "fresh")]).Encloses (.number 10) none
      reconfigured := by
    exact ⟨hbegins, by decide +kernel, hblocks⟩
  obtain ⟨hsettings, -, hreceived⟩ :=
    (run_follows_settings "default" [.get (some "fresh")]).2.2.2.2 _ _ _ hencloses
  refine ⟨hencloses, hsettings, ?_⟩
  refine hreceived (by decide +kernel) [.emit (some "fresh") 40 "late"] ?_
  simp [Step.Names]

/-- A format without a placeholder is refused, but it is the format in force from then on, and the
first logger is left without a handler. -/
theorem not_follows_refused :
    let s := (start "default").run [.configure (.number 30) (some "plain") none]
    s.registry.settings = ⟨30, "plain", none⟩ ∧
      (s.registry.loggers.head?.map fun l => (l.name, l.handlers)) =
        some (Event.diagnosticsSource, []) := by
  decide +kernel

end Session

end CentralPath.Journal
