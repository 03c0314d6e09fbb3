import PhraseLedger.CommandLine.Options
import PhraseLedger.Proofs.Readers
import PhraseLedger.Proofs.Utf8Lines

/-!
# Flags over files

The settings of a run have three layers: the defaults of the machine, what a settings file binds,
and what flags bind.  Settings are validated when a file is loaded and again with the flags on top
of it, so a zero in a file is refused even where a flag would override it.  In everything else a
flag hides what the file says.  All of this holds for any reader of files that reads JSON and
follows a strict schema.

Main definitions:

- Definition {lit}`Environment.withFile`: an environment with another file in it.
- Definition {lit}`Options.GivesOnce`: whether flags give each field at most one value.
- Definition {lit}`Options.OverridesZero`: whether a flag gives a value to a count that is zero.

Main results:

- Theorem {lit}`Arguments.givesOnce_of_read`: a command line gives each field at most one value.
- Theorem {lit}`Options.settings_withFile`: the settings of a file and flags.
- Theorem {lit}`Options.flags_hide_file`: of overridden fields only a zero in the file matters.
- Theorem {lit}`Options.parallelism_follows_iff`: when there are as many slices as workers.
-/

namespace PhraseLedger

/-- An environment in which a file has other content. -/
def Environment.withFile (environment : Environment) (path : String) (text : Text) :
    Environment :=
  { environment with
    fileAt := fun other => if other = path then .ok text else environment.fileAt other }

/-- Whether no field is given a value twice. -/
def Options.GivesOnce (options : Options) : Prop :=
  (options.overrides.map Prod.fst).Nodup

/-! ## Flags on a command line -/

namespace Arguments

variable {flags : FlagSet} {arguments changed : Arguments} {name value : List Char} {field : Field}

theorem givesOnce_giveField (honce : arguments.options.GivesOnce)
    (hgive : arguments.giveField field value = .ok changed) : changed.options.GivesOnce := by
  rw [giveField] at hgive
  split at hgive
  · cases hgive
  · split_ifs at hgive with hgiven
    obtain rfl := Except.ok.inj hgive
    rw [Option.not_isSome_iff_eq_none, lookup_eq_none_iff_not_mem] at hgiven
    rw [Options.GivesOnce, List.map_append]
    exact List.nodup_append_comm.mp (List.nodup_cons.mpr ⟨hgiven, honce⟩)

theorem givesOnce_giveValue? (honce : arguments.options.GivesOnce)
    (hgive : arguments.giveValue? name value = some (.ok changed)) :
    changed.options.GivesOnce := by
  rw [giveValue?] at hgive
  split_ifs at hgive with hname
  · have hconfig := Option.some.inj hgive
    rw [giveConfig] at hconfig
    split_ifs at hconfig
    obtain rfl := Except.ok.inj hconfig
    exact honce
  · rcases Option.map_eq_some_iff.mp hgive with ⟨field, -, hfield⟩
    exact givesOnce_giveField honce hfield

theorem givesOnce_giveSwitch (honce : arguments.options.GivesOnce)
    (hgive : arguments.giveSwitch flags name = .ok changed) : changed.options.GivesOnce := by
  rw [giveSwitch] at hgive
  split_ifs at hgive <;> obtain rfl := Except.ok.inj hgive
  iterate 2 exact honce

theorem givesOnce_giveLetters {letters : List Char} (honce : arguments.options.GivesOnce)
    (hgive : giveLetters flags letters arguments = .ok changed) : changed.options.GivesOnce := by
  induction letters generalizing arguments with
  | nil => exact Except.ok.inj hgive ▸ honce
  | cons letter letters ih =>
      rw [giveLetters] at hgive
      split_ifs at hgive
      refine ih ?_ hgive
      exact honce

/-- Arguments that are read on top of others that give each field once do so, too. -/
theorem givesOnce_readFrom {words : List (List Char)} (honce : arguments.options.GivesOnce)
    (hread : readFrom flags words arguments = .ok changed) : changed.options.GivesOnce := by
  -- Reading goes on behind a flag with a value, behind a switch and behind letters.
  fun_induction readFrom flags words arguments
  case case1 | case2 => exact Except.ok.inj hread ▸ honce
  case case6 | case11 =>
    rename_i hgive ih
    exact ih (givesOnce_giveValue? honce hgive) hread
  case case13 =>
    rename_i hgive ih
    exact ih (givesOnce_giveSwitch honce hgive) hread
  case case15 =>
    rename_i hgive ih
    exact ih (givesOnce_giveLetters honce hgive) hread
  all_goals cases hread

/-- The flags of a command line give each field a value at most once. -/
theorem givesOnce_of_read {words : List String} (hread : read flags words = .ok changed) :
    changed.options.GivesOnce := by
  have hnone : none.options.GivesOnce := List.nodup_nil
  exact givesOnce_readFrom hnone hread

end Arguments

namespace Options

/-- Whether a flag gives a value to a count that is zero in settings. -/
def OverridesZero (options : Options) (settings : Settings) : Prop :=
  ∃ field : Field, field.isCount = true ∧ (options.overrides.lookup field).isSome = true ∧
    settings.get field = 0

variable {environment : Environment} {options : Options} {path : String} {text : Text}
  {found : Bindings} {schema : Settings.Schema}

/-! ## One file -/

/-- A file that describes bindings is read as the text in it. -/
theorem loadFile_of_describes (hfile : environment.fileAt path = .ok text)
    (h : Settings.Describes text found) :
    loadFile environment path =
      Settings.read environment.reader environment.processors path text := by
  rw [loadFile, hfile]
  exact if_pos (Text.isUtf8_of_ascii h.ascii)

/-- What is loaded from a file is described in it. -/
theorem describes_of_loadFile (hreader : environment.reader.Follows schema)
    (hschema : schema.IsStrict) {settings : Settings}
    (hload : loadFile environment path = .ok settings) :
    ∃ text found, environment.fileAt path = .ok text ∧ Settings.Describes text found ∧
      settings = (Settings.standard environment.processors).bind found := by
  rw [loadFile] at hload
  split at hload
  · cases hload
  · rename_i text hfile
    split_ifs at hload
    rcases (Settings.read_eq_ok_iff hreader hschema).mp hload with ⟨found, hfound, hsettings, -⟩
    exact ⟨text, found, hfile, hfound, hsettings⟩

/-- With a settings file, flags bind their own fields only. -/
theorem override_of_config (hconfig : options.config = some path) (settings : Settings) :
    options.override settings = settings.bind options.overrides := by
  rw [override, hconfig]
  cases options.overrides.lookup .poolSize with
  | none => rfl
  | some poolSize => simp

/-- The settings of a file and flags: the file must be valid without the flags, and the flags on
top of it must be valid, too. -/
theorem settings_withFile (hreader : environment.reader.Follows schema)
    (hschema : schema.IsStrict) (hsequential : options.sequential = false)
    (hconfig : options.config = some path) (h : Settings.Describes text found) :
    options.settings (environment.withFile path text) =
      match ((Settings.standard environment.processors).bind found).validate with
      | .error cause => .error ⟨"loading " ++ path, cause⟩
      | .ok () =>
        let merged := ((Settings.standard environment.processors).bind found).bind options.overrides
        match merged.validate with
        | .error cause => .error ⟨"invalid engine options", cause⟩
        | .ok () => .ok merged := by
  have hload : loadFile (environment.withFile path text) path =
      Settings.read environment.reader environment.processors path text :=
    loadFile_of_describes (if_pos rfl) h
  rw [Options.settings, hsequential, base, hconfig]
  simp only [Bool.false_eq_true, if_false]
  rw [hload, h.read hreader hschema]
  cases ((Settings.standard environment.processors).bind found).validate with
  | error cause => rfl
  | ok _ =>
      have hmerge := override_of_config hconfig
        ((Settings.standard environment.processors).bind found)
      cases hvalid : (((Settings.standard environment.processors).bind found).bind
          options.overrides).validate with
      | error cause => simp only [Except.map, hmerge, hvalid]
      | ok _ => simp only [Except.map, hmerge, hvalid]

/-! ## Two files -/

/-- Of a field that a flag gives a value to, a file decides nothing, unless it makes a count zero:
files that describe the same but for such fields have the same outcome, also where it is an
error.  A file that makes an overridden count zero is refused, since it is validated before the
flags come into play. -/
theorem flags_hide_file (environment : Environment) (schema : Settings.Schema)
    (hreader : environment.reader.Follows schema) (hschema : schema.IsStrict) (options : Options)
    (path : String) (text other : Text) (found others : Bindings)
    (hsequential : options.sequential = false)
    (hconfig : options.config = some path) (htext : Settings.Describes text found)
    (hother : Settings.Describes other others)
    (hagree : ∀ field, options.overrides.lookup field = .none →
      ((Settings.standard environment.processors).bind found).get field =
        ((Settings.standard environment.processors).bind others).get field) :
    (¬options.OverridesZero ((Settings.standard environment.processors).bind found) →
      ¬options.OverridesZero ((Settings.standard environment.processors).bind others) →
      options.settings (environment.withFile path text) =
        options.settings (environment.withFile path other)) ∧
    (options.OverridesZero ((Settings.standard environment.processors).bind found) →
      ∃ cause, options.settings (environment.withFile path text) =
        .error ⟨"loading " ++ path, cause⟩) := by
  rw [settings_withFile hreader hschema hsequential hconfig htext,
    settings_withFile hreader hschema hsequential hconfig hother]
  generalize (Settings.standard environment.processors).bind found = first at *
  generalize (Settings.standard environment.processors).bind others = second at *
  constructor
  · intro hfirst hsecond
    have hvalidate : first.validate = second.validate := by
      -- A count without a flag is the same in both, and one with a flag is zero in neither.
      refine Settings.validate_congr fun field hcount => ?_
      by_cases hflag : options.overrides.lookup field = .none
      · rw [hagree field hflag]
      · have hgiven := Option.isSome_iff_ne_none.mpr hflag
        exact iff_of_false (fun hzero => hfirst ⟨field, hcount, hgiven, hzero⟩)
          (fun hzero => hsecond ⟨field, hcount, hgiven, hzero⟩)
    rw [hvalidate, Settings.bind_congr hagree]
  · rintro ⟨field, hcount, -, hzero⟩
    cases hvalid : first.validate with
    | error cause => exact ⟨cause, rfl⟩
    | ok _ => exact absurd hzero (Settings.get_ne_zero_of_validate hvalid hcount)

/-- Two files that bind the overridden number of fragments differently. -/
theorem flags_hide_file_seven_fragments :
    let environment : Environment := ⟨4, fun _ => .error .missing, Settings.json⟩
    let options : Options := ⟨some "tuning", [(.fragmentWorkers, 7)], false⟩
    options.settings (environment.withFile "tuning"
        (Text.ofString "\x7b\"fragment_workers\": 2, \"pool_size\": 3\x7d")) =
      options.settings (environment.withFile "tuning"
        (Text.ofString "\x7b\"pool_size\": 3, \"fragment_workers\": 9\x7d")) ∧
    options.settings (environment.withFile "tuning"
        (Text.ofString "\x7b\"pool_size\": 3, \"fragment_workers\": 9\x7d")) =
      .ok ⟨3, 4, 7, 65536⟩ := by
  intro environment options
  have htext : Settings.Describes
      (Text.ofString "\x7b\"fragment_workers\": 2, \"pool_size\": 3\x7d")
      [(.fragmentWorkers, 2), (.poolSize, 3)] := Settings.bindings_eq_ok_iff.mp (by decide +kernel)
  have hother : Settings.Describes
      (Text.ofString "\x7b\"pool_size\": 3, \"fragment_workers\": 9\x7d")
      [(.poolSize, 3), (.fragmentWorkers, 9)] := Settings.bindings_eq_ok_iff.mp (by decide +kernel)
  refine ⟨(flags_hide_file environment Settings.plainSchema Settings.json_follows
    Settings.plainSchema_isStrict options "tuning" _ _ _ _ rfl rfl htext hother ?_).1 ?_ ?_,
    by decide +kernel⟩
  · intro field hflag
    cases field <;> first | rfl | cases hflag
  · rintro ⟨field, -, -, hzero⟩
    cases field <;> cases hzero
  · rintro ⟨field, -, -, hzero⟩
    cases field <;> cases hzero

/-- A file that makes a count zero is refused although a flag overrides the count, and a file that
says nothing is not. -/
theorem zero_refused_below_flag :
    let environment : Environment := ⟨4, fun _ => .error .missing, Settings.json⟩
    let options : Options := ⟨some "tuning", [(.fragmentWorkers, 1)], false⟩
    ∃ text other found others, Settings.Describes text found ∧ Settings.Describes other others ∧
      (∀ field, options.overrides.lookup field = .none →
        found.lookup field = others.lookup field) ∧
      options.settings (environment.withFile "tuning" text) =
        .error ⟨"loading tuning", Settings.zeroCount "fragment_workers"⟩ ∧
      options.settings (environment.withFile "tuning" other) = .ok ⟨4, 4, 1, 65536⟩ := by
  refine ⟨Text.ofString "\x7b\"fragment_workers\":0\x7d", Text.ofString "\x7b\x7d",
    [(.fragmentWorkers, 0)], [], Settings.bindings_eq_ok_iff.mp (by decide +kernel),
    Settings.bindings_eq_ok_iff.mp (by decide +kernel), ?_, by decide +kernel, by decide +kernel⟩
  intro field hflag
  cases field <;> first | rfl | cases hflag

/-! ## Slices and workers -/

/-- The settings that options ask for are a base with the flags on top of it. -/
theorem override_of_settings {settings : Settings} (hsequential : options.sequential = false)
    (hsettings : options.settings environment = .ok settings) :
    ∃ base, options.base environment = .ok base ∧ settings = options.override base := by
  rw [Options.settings, hsequential] at hsettings
  simp only [Bool.false_eq_true, if_false] at hsettings
  split at hsettings
  · cases hsettings
  · rename_i base hbase
    split at hsettings
    · cases hsettings
    · exact ⟨base, hbase, (Except.ok.inj hsettings).symm⟩

/-- Without a settings file there are as many slices as workers, unless a flag says otherwise. -/
theorem parallelism_of_defaults {processors : Nat} (hconfig : options.config = .none)
    (hflag : options.overrides.lookup .parallelism = .none)
    (honce : options.GivesOnce) :
    (options.override (.standard processors)).parallelism =
      (options.override (.standard processors)).poolSize := by
  have hpool := Settings.get_bind_of_nodup honce (.standard processors) .poolSize
  have hparallelism := Settings.get_bind_of_nodup honce (.standard processors) .parallelism
  simp only [Settings.get] at hpool hparallelism
  rw [override, hconfig, hflag]
  cases hgiven : options.overrides.lookup .poolSize with
  | none =>
      rw [hgiven] at hpool
      rw [hflag] at hparallelism
      exact hparallelism.trans hpool.symm
  | some poolSize =>
      rw [hgiven] at hpool
      exact hpool.symm

/-- Behind a settings file that does not bind the number of slices there are as many of them as
processors, unless a flag says otherwise. -/
theorem parallelism_of_file {settings : Settings} (hconfig : options.config = some path)
    (hflag : options.overrides.lookup .parallelism = .none)
    (honce : options.GivesOnce)
    (hfound : (found.map Prod.fst).Nodup) (hfile : found.lookup .parallelism = .none)
    (hsettings : settings = (Settings.standard environment.processors).bind found) :
    (options.override settings).parallelism = environment.processors := by
  have hmerged := Settings.get_bind_of_nodup honce settings .parallelism
  have hloaded := Settings.get_bind_of_nodup hfound (.standard environment.processors) .parallelism
  rw [hflag] at hmerged
  rw [hfile, ← hsettings] at hloaded
  rw [override_of_config hconfig]
  exact hmerged.trans hloaded

/-- There are as many slices as workers if no settings file is read.  Behind a settings file that
does not bind the number of slices there are as many as processors, whatever the file and the
flags say about the number of workers. -/
theorem parallelism_follows_iff (environment : Environment) (schema : Settings.Schema)
    (hreader : environment.reader.Follows schema) (hschema : schema.IsStrict) (options : Options)
    (settings : Settings) (hsequential : options.sequential = false)
    (hflag : options.overrides.lookup .parallelism = .none)
    (honce : options.GivesOnce)
    (hfile : ∀ path text found, options.config = some path →
      environment.fileAt path = .ok text → Settings.Describes text found →
        found.lookup .parallelism = .none)
    (hsettings : options.settings environment = .ok settings) :
    settings.parallelism = settings.poolSize ↔
      options.config = .none ∨ settings.poolSize = environment.processors := by
  rcases override_of_settings hsequential hsettings with ⟨below, hbase, rfl⟩
  rw [base] at hbase
  cases hconfig : options.config with
  | none =>
      rw [hconfig] at hbase
      obtain rfl := Except.ok.inj hbase
      exact iff_of_true (parallelism_of_defaults hconfig hflag honce) (.inl rfl)
  | some path =>
      rw [hconfig] at hbase
      simp only at hbase
      split at hbase
      · cases hbase
      · rename_i loaded hload
        obtain rfl := Except.ok.inj hbase
        rcases describes_of_loadFile hreader hschema hload with
          ⟨text, found, htext, hdescribes, hloaded⟩
        rw [parallelism_of_file hconfig hflag honce hdescribes.distinct
          (hfile path text found hconfig htext hdescribes) hloaded]
        simp [eq_comm]

/-- Nine workers by a flag and the slices of four processors, behind a settings file that binds
neither count. -/
theorem parallelism_follows_iff_nine_workers :
    let environment : Environment :=
      ⟨4, fun _ => .ok (Text.ofString "\x7b\"split_threshold\": 3\x7d"), Settings.json⟩
    let options : Options := ⟨some "tuning", [(.poolSize, 9)], false⟩
    ∃ settings, options.settings environment = .ok settings ∧ settings.poolSize = 9 ∧
      (settings.parallelism = settings.poolSize ↔
        options.config = .none ∨ settings.poolSize = environment.processors) := by
  intro environment options
  have hsettings : options.settings environment = .ok ⟨9, 4, 4, 3⟩ := by decide +kernel
  have hknown : Settings.Describes (Text.ofString "\x7b\"split_threshold\": 3\x7d")
      [(.splitThreshold, 3)] := Settings.bindings_eq_ok_iff.mp (by decide +kernel)
  refine ⟨_, hsettings, rfl, parallelism_follows_iff environment Settings.plainSchema
    Settings.json_follows Settings.plainSchema_isStrict options _ rfl rfl (List.nodup_singleton _)
    ?_ hsettings⟩
  intro path text found _ htext hfound
  obtain rfl := Except.ok.inj htext
  obtain rfl := hfound.unique hknown
  rfl

/-- Behind a settings file that binds the number of workers only, the number of slices is that of
the processors. -/
theorem parallelism_of_file_two_workers :
    let environment : Environment :=
      ⟨4, fun _ => .ok (Text.ofString "\x7b\"pool_size\":2\x7d"), Settings.json⟩
    let options : Options := ⟨some "tuning", [], false⟩
    Settings.Describes (Text.ofString "\x7b\"pool_size\":2\x7d") [(.poolSize, 2)] ∧
      options.settings environment = .ok ⟨2, 4, 4, 65536⟩ :=
  ⟨Settings.bindings_eq_ok_iff.mp (by decide +kernel), by decide +kernel⟩

end Options

end PhraseLedger
