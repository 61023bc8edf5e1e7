import FirmwareRollout.Proofs.Settings.Fields
import FirmwareRollout.Proofs.Settings.Names
import FirmwareRollout.Proofs.Toml.Rendered

/-!
Settings in layers: the environment before the file, and the file before the defaults. Loading is a
matter of what is given for each of the fourteen settings (`Settings.given`). It works exactly if
all of that fits, and then each setting goes by what is given for it alone. From a file that was
written out, that is the value that was written for it (`stands_of_written`).

Main statement: `settings_are_layered`.
-/

namespace FirmwareRollout

namespace Settings

/-- What is given for a setting: by the environment, or else by the file. -/
def given (file : Datum.Members) (environment : List (String × String)) (s : Setting) :
    Option Datum :=
  (Environment.named environment s.table s.key).or (Datum.at? file s.table s.key)

section Given

variable {file : Datum.Members} {environment : List (String × String)} {s : Setting}

theorem given_of_named {d : Datum} (named : Environment.named environment s.table s.key = some d) :
    given file environment s = some d := by
  rw [given, named, Option.some_or]

theorem given_of_unnamed (unnamed : Environment.named environment s.table s.key = none) :
    given file environment s = Datum.at? file s.table s.key := by
  rw [given, unnamed, Option.none_or]

end Given

/-- Each of the sections is a table, if it is there. -/
def Sectioned (file : Datum.Members) : Prop := ∀ s : Setting, Datum.IsTable file s.table

section Loading

variable {text : Option String} {environment : List (String × String)} {file : Datum.Members}
  (names : Environment.TwoParts environment) (parsed : Toml.parse? (text.getD "") = some file)
  (tables : Sectioned file)
include names

theorem load_of_malformed (malformed : Toml.parse? (text.getD "") = none) :
    load text environment = .error .malformed := by
  obtain ⟨all, hall, -⟩ := Environment.members_eq names
  simp only [load, malformed, hall]

include parsed tables

/-- What is loaded is what the layers spell together, and they give for each setting what it goes
by. -/
theorem load_eq : ∃ merged, Sectioned merged ∧
    (∀ s : Setting, (Datum.at? merged s.table s.key).map Datum.outline =
      (given file environment s).map Datum.outline) ∧
    load text environment = (ofMembers merged).elim (.error .mismatch) .ok := by
  obtain ⟨all, hall, tidy, named⟩ := Environment.members_eq names
  refine ⟨Datum.mergeMembers file all,
    fun s => (tables s).mergeMembers tidy.distinct (tidy.tables s.table), fun s => ?_, ?_⟩
  · rw [Datum.outline_at?_mergeMembers (tables s) tidy, Option.map_or, named, ← Option.map_or,
      given]
  · simp only [load, parsed, hall]
    cases ofMembers (Datum.mergeMembers file all) <;> rfl

theorem load_ok_iff {settings : Settings} : load text environment = .ok settings ↔
    ∀ s : Setting, s.Has (given file environment s) (s.get settings) := by
  obtain ⟨merged, sectioned, same, h⟩ := load_eq names parsed tables
  have spelt : load text environment = .ok settings ↔ ofMembers merged = some settings := by
    rw [h]
    cases ofMembers merged <;> simp
  rw [spelt, ofMembers_eq_some_iff sectioned]
  exact forall_congr' fun s => Setting.has_congr (same s)

theorem exists_load_iff : (∃ settings, load text environment = .ok settings) ↔
    ∀ s : Setting, s.Fits (given file environment s) := by
  rw [← Setting.exists_has_iff]
  exact exists_congr fun settings => load_ok_iff names parsed tables

theorem load_of_misfit (misfit : ¬ ∀ s : Setting, s.Fits (given file environment s)) :
    load text environment = .error .mismatch := by
  rw [← exists_load_iff names parsed tables] at misfit
  obtain ⟨merged, -, -, h⟩ := load_eq names parsed tables
  rw [h] at misfit ⊢
  cases spelt : ofMembers merged with
  | none => rfl
  | some settings => exact absurd ⟨settings, by rw [spelt]; rfl⟩ misfit

/-- Only what is given for the fourteen settings matters. -/
theorem load_congr {other : Option String} {others : List (String × String)}
    {otherFile : Datum.Members} (otherNames : Environment.TwoParts others)
    (otherParsed : Toml.parse? (other.getD "") = some otherFile) (otherTables : Sectioned otherFile)
    (same : ∀ s : Setting, given otherFile others s = given file environment s) :
    load other others = load text environment := by
  by_cases fits : ∀ s : Setting, s.Fits (given file environment s)
  · obtain ⟨settings, loaded⟩ := (exists_load_iff names parsed tables).2 fits
    rw [loaded, load_ok_iff otherNames otherParsed otherTables]
    intro s
    rw [same]
    exact (load_ok_iff names parsed tables).1 loaded s
  · rw [load_of_misfit names parsed tables fits, load_of_misfit otherNames otherParsed otherTables]
    simpa only [same] using fits

end Loading

/-! ### Files that are written out -/

section Written

variable {doc : List Toml.Section} {environment : List (String × String)} {settings : Settings}

theorem sectioned_meaning (doc : List Toml.Section) : Sectioned (Toml.meaning doc) := by
  intro s d found
  rw [Datum.find?, Option.map_eq_some_iff] at found
  obtain ⟨m, found, rfl⟩ := found
  obtain ⟨t, -, rfl⟩ := List.mem_map.1 (List.mem_of_find?_eq_some found)
  exact ⟨_, rfl⟩

/-- A key of a table has the value that is written for it, if one is. -/
theorem at?_meaning_eq_some_iff (well : Toml.WellFormed doc) {table key : String} {d : Datum} :
    Datum.at? (Toml.meaning doc) table key = some d ↔
      ∃ es v, (table, es) ∈ doc ∧ (key, v) ∈ es ∧ v.datum = d := by
  have tables : ((Toml.meaning doc).map (·.1)).Nodup := by
    rw [Toml.meaning, List.map_map]
    exact well.tables
  have keys {es} (member : (table, es) ∈ doc) :
      ((es.map fun e => (e.1, e.2.datum)).map (·.1)).Nodup := by
    rw [List.map_map]
    exact well.keys _ member
  rw [Datum.at?_eq_some_iff]
  constructor
  · rintro ⟨members, found, inside⟩
    rw [Datum.find?_eq_some_iff_mem tables] at found
    obtain ⟨⟨_, es⟩, member, ⟨⟩⟩ := List.mem_map.1 found
    rw [Datum.find?_eq_some_iff_mem (keys member)] at inside
    obtain ⟨⟨_, v⟩, entry, ⟨⟩⟩ := List.mem_map.1 inside
    exact ⟨es, v, member, entry, rfl⟩
  · rintro ⟨es, v, member, entry, rfl⟩
    refine ⟨es.map fun e => (e.1, e.2.datum), ?_, ?_⟩
    · exact (Datum.find?_eq_some_iff_mem tables).2 (List.mem_map.2 ⟨_, member, rfl⟩)
    · exact (Datum.find?_eq_some_iff_mem (keys member)).2 (List.mem_map.2 ⟨_, entry, rfl⟩)

/-- **Settings of a file that was written out**: what no variable names has the value that was
written for it. -/
theorem stands_of_written (names : Environment.TwoParts environment) (well : Toml.WellFormed doc)
    (loaded : load (some (Toml.render doc)) environment = .ok settings) {s : Setting}
    (unnamed : Environment.named environment s.table s.key = none)
    {es : List (String × Toml.Scalar)} {v : Toml.Scalar} (member : (s.table, es) ∈ doc)
    (entry : (s.key, v) ∈ es) : s.kind.Stands v.datum (s.get settings) := by
  have written : Datum.at? (Toml.meaning doc) s.table s.key = some v.datum :=
    (at?_meaning_eq_some_iff well).2 ⟨es, v, member, entry, rfl⟩
  have parsed : Toml.parse? ((some (Toml.render doc)).getD "") = some (Toml.meaning doc) :=
    Toml.parse?_render well
  have has := (load_ok_iff names parsed (sectioned_meaning doc)).1 loaded s
  rwa [given_of_unnamed unnamed, written] at has

end Written

/-- **Layers of settings**, where each variable with the mark names a key of a table and no section
of the file is anything but a table. A text that is no TOML is refused. With any other, loading
works exactly if what is given for each of the fourteen settings fits, by the last variable that
names it or else by the file. Then each setting has the value that is given for it alone, or else
its default; otherwise the load fails, and no default takes the place. Nothing else in the file or
in the environment matters. -/
theorem settings_are_layered {text : Option String} {environment : List (String × String)}
    (names : Environment.TwoParts environment)
    (tables : ∀ file, Toml.parse? (text.getD "") = some file → Sectioned file) :
    (∀ name table key, Environment.Spells name table key →
      Environment.path? name = some [table, key]) ∧
    (∀ name, ¬ Environment.Marked name → Environment.path? name = none) ∧
    (Toml.parse? (text.getD "") = none → load text environment = .error .malformed) ∧
    ∀ file, Toml.parse? (text.getD "") = some file →
      ((∃ settings, load text environment = .ok settings) ↔
        ∀ s : Setting, s.Fits (given file environment s)) ∧
      (∀ settings, load text environment = .ok settings → ∀ (s : Setting) (v : s.kind.Value),
        s.Has (given file environment s) v ↔ s.get settings = v) ∧
      ((¬ ∀ s : Setting, s.Fits (given file environment s)) →
        load text environment = .error .mismatch) ∧
      ∀ other others otherFile, Environment.TwoParts others →
        Toml.parse? (other.getD "") = some otherFile → Sectioned otherFile →
        (∀ s : Setting, given otherFile others s = given file environment s) →
          load other others = load text environment := by
  refine ⟨fun name table key => Environment.path?_of_spells,
    fun name => Environment.path?_of_not_marked, load_of_malformed names, fun file parsed => ?_⟩
  have sectioned := tables file parsed
  refine ⟨exists_load_iff names parsed sectioned, fun settings loaded s v => ?_,
    load_of_misfit names parsed sectioned, fun other others otherFile =>
      load_congr names parsed sectioned⟩
  have own := (load_ok_iff names parsed sectioned).1 loaded s
  exact ⟨own.unique, fun h => h ▸ own⟩

/-- A variable hides a value of the file that does not fit. What else is in the file counts, and what
nobody sets keeps its default. -/
theorem layered_over_misfit : ∃ settings,
    load (some "[scheduler]\nbatch_size = \"many\"\n[retry]\nmax_attempts = 3\n")
      [("fuota_Scheduler__BATCH_SIZE", "7"), ("PATH", "/bin")] = .ok settings ∧
    settings.scheduler.batchSize = 7 ∧ settings.retry.maxAttempts = 3 ∧
    settings.retry.baseDelaySecs = 30 := by
  let text : Option String := some "[scheduler]\nbatch_size = \"many\"\n[retry]\nmax_attempts = 3\n"
  let environment := [("fuota_Scheduler__BATCH_SIZE", "7"), ("PATH", "/bin")]
  have names : Environment.TwoParts environment := by
    have first : Environment.path? "fuota_Scheduler__BATCH_SIZE" =
      some ["scheduler", "batch_size"] := rfl
    have second : Environment.path? "PATH" = none := rfl
    simp [environment, Environment.TwoParts, first, second]
  let doc : List Toml.Section :=
    [("scheduler", [("batch_size", .text "many")]), ("retry", [("max_attempts", .natural 3)])]
  have rendered : text.getD "" = Toml.render doc := by decide +kernel
  have well : Toml.WellFormed doc := by decide
  have parsed : Toml.parse? (text.getD "") = some (Toml.meaning doc) :=
    rendered ▸ Toml.parse?_render well
  obtain ⟨-, -, -, h⟩ := settings_are_layered names fun file found =>
    Option.some.inj (parsed.symm.trans found) ▸ sectioned_meaning doc
  obtain ⟨loads, goesBy, -⟩ := h (Toml.meaning doc) parsed
  have seven : given (Toml.meaning doc) environment .batchSize = some (.integer 7) :=
    given_of_named rfl
  have three : given (Toml.meaning doc) environment .maxAttempts = some (.integer 3) := by
    have unnamed : Environment.named environment "retry" "max_attempts" = none :=
      Option.isNone_iff_eq_none.1 (by decide +kernel)
    rw [given_of_unnamed unnamed]
    exact (at?_meaning_eq_some_iff well).2
      ⟨_, .natural 3, .tail _ List.mem_cons_self, List.mem_cons_self, rfl⟩
  have others : ∀ s : Setting, s = .batchSize ∨ s = .maxAttempts ∨
      (given (Toml.meaning doc) environment s).isNone := by
    intro s
    cases s <;> first | exact .inl rfl | exact .inr (.inl rfl) | exact .inr (.inr (by decide +kernel))
  have fits : ∀ s : Setting, s.Fits (given (Toml.meaning doc) environment s) := by
    intro s d found
    rcases others s with rfl | rfl | unsaid
    · obtain rfl := Option.some.inj (seven.symm.trans found)
      exact ⟨_, .word32 7⟩
    · obtain rfl := Option.some.inj (three.symm.trans found)
      exact ⟨_, .word32 3⟩
    · rw [found] at unsaid
      cases unsaid
  have unsaid : given (Toml.meaning doc) environment .baseDelay = none :=
    Option.isNone_iff_eq_none.1 (by decide +kernel)
  obtain ⟨settings, loaded⟩ := loads.2 fits
  refine ⟨settings, loaded, (goesBy settings loaded .batchSize (7 : UInt32)).1 ?_,
    (goesBy settings loaded .maxAttempts (3 : UInt32)).1 ?_,
    (goesBy settings loaded .baseDelay (30 : UInt64)).1 ?_⟩
  · rw [seven]
    exact .word32 7
  · rw [three]
    exact .word32 3
  · rw [unsaid]
    rfl

end Settings

end FirmwareRollout
