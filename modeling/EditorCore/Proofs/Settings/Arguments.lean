import EditorCore.Proofs.Settings.Validation

set_option autoImplicit false

/-! # The argument list says it all

The front end gets its options as a flat list of texts, in which a switch and its value take turns.
A value may look like a switch, so the list is read in pairs from its start (`Flag.pairs`), and the
values behind one switch are found in their order (`Flag.behind`). For the options of a
configuration these are its settings, a switch for each kind of them (`Config.behind_arguments`);
hence two configurations with the same arguments have the same settings.
-/

namespace EditorCore.Settings

namespace Flag

/-- The switches of an argument list, each with its value. -/
def pairs : List String → List (String × String)
  | switch :: value :: more => (switch, value) :: pairs more
  | _ => []

/-- The values behind a switch, in order. -/
def behind (switch : String) (arguments : List String) : List String :=
  ((pairs arguments).filter (·.1 = switch)).map (·.2)

theorem pairs_arguments (flags : List Flag) :
    pairs (arguments flags) = flags.map fun f => (f.switch, f.value) := by
  induction flags with
  | nil => rfl
  | cons f flags ih =>
      rw [List.map_cons, ← ih]
      rfl

theorem behind_append (switch : String) (flags more : List Flag) :
    behind switch (arguments (flags ++ more)) =
      behind switch (arguments flags) ++ behind switch (arguments more) := by
  simp [behind, pairs_arguments]

/-- Options of one kind have their values behind the switch of that kind. -/
theorem behind_map {α : Type} (kind : α → Flag) (switch : String)
    (h : ∀ x, (kind x).switch = switch) (xs : List α) (switch' : String) :
    behind switch' (arguments (xs.map kind)) =
      if switch = switch' then xs.map fun x => (kind x).value else [] := by
  rw [behind, pairs_arguments, List.map_map]
  by_cases hswitch : switch = switch'
  · rw [if_pos hswitch, List.filter_eq_self.mpr, List.map_map]
    · rfl
    · simp [h, hswitch]
  · rw [if_neg hswitch, List.filter_eq_nil_iff.mpr, List.map_nil]
    simp [h, hswitch]

end Flag

namespace Config

/-- The settings of a configuration, found behind the switches of its arguments. -/
theorem behind_arguments (c : Config) :
    Flag.behind "-I" (Flag.arguments c.flags) = c.resolvedIncludePaths.map (·.text) ∧
    Flag.behind "-D" (Flag.arguments c.flags) = c.macros ∧
    Flag.behind "-include" (Flag.arguments c.flags) =
      c.resolvedDefaultIncludes.map (·.text) ∧
    Flag.behind "-m" (Flag.arguments c.flags) = (c.mainConfig.filter (· ≠ "")).toList ∧
    Flag.behind "-p" (Flag.arguments c.flags) = [c.root.text] := by
  have hflags : c.flags = c.resolvedIncludePaths.map .includePath ++ c.macros.map .define ++
      c.resolvedDefaultIncludes.map .defaultInclude ++
      (c.mainConfig.filter (· ≠ "")).toList.map .mainConfig ++ [c.root].map .projectRoot := by
    simp [flags, Option.toList_map]
  simp only [hflags, Flag.behind_append,
    Flag.behind_map Flag.includePath "-I" fun _ => rfl,
    Flag.behind_map Flag.define "-D" fun _ => rfl,
    Flag.behind_map Flag.defaultInclude "-include" fun _ => rfl,
    Flag.behind_map Flag.mainConfig "-m" fun _ => rfl,
    Flag.behind_map Flag.projectRoot "-p" fun _ => rfl]
  simp [Flag.value]

end Config

/-- **The argument list loses no setting.** Take two configurations that have options, whichever
paths are files for either of them. If the options give the same argument list, the configurations
have the same root, macros, include paths and files included by default, in the same order and with
paths seen from the root, and the same main configuration, an empty name counting as none. -/
theorem arguments_determine_settings (isFile isFile' : Path → Bool) (c d : Config)
    (flags flags' : List Flag) (hc : c.optionsWhere isFile = .ok flags)
    (hd : d.optionsWhere isFile' = .ok flags')
    (hsame : Flag.arguments flags = Flag.arguments flags') :
    c.root.text = d.root.text ∧ c.macros = d.macros ∧
      c.resolvedIncludePaths = d.resolvedIncludePaths ∧
      c.resolvedDefaultIncludes = d.resolvedDefaultIncludes ∧
      c.mainConfig.filter (· ≠ "") = d.mainConfig.filter (· ≠ "") := by
  obtain ⟨-, rfl⟩ := Config.optionsWhere_eq_ok_iff.mp hc
  obtain ⟨-, rfl⟩ := Config.optionsWhere_eq_ok_iff.mp hd
  obtain ⟨hpaths, hmacros, hincludes, hmain, hroot⟩ := c.behind_arguments
  rw [hsame] at hpaths hmacros hincludes hmain hroot
  obtain ⟨hpaths', hmacros', hincludes', hmain', hroot'⟩ := d.behind_arguments
  have htext : ∀ p q : Path, p.text = q.text → p = q := by
    rintro ⟨text⟩ ⟨text'⟩ rfl
    rfl
  refine ⟨?_, hmacros.symm.trans hmacros', ?_, ?_, ?_⟩
  · exact List.singleton_inj.mp (hroot.symm.trans hroot')
  · exact (List.map_inj_right htext).mp (hpaths.symm.trans hpaths')
  · exact (List.map_inj_right htext).mp (hincludes.symm.trans hincludes')
  · simpa using congrArg List.head? (hmain.symm.trans hmain')

/-- Settings whose values look like switches. -/
def disguised : Config where
  root := ⟨"/p"⟩
  mainConfig := some "-I"
  includePaths := [⟨"-D"⟩, ⟨"/p/-m"⟩]
  macros := ["A=-include"]
  defaultIncludes := [⟨"-p"⟩]
  warnings := []

/-- The same settings, with the paths written in another way. -/
def respelled : Config :=
  { disguised with
    includePaths := [⟨"/p/-D"⟩, ⟨"-m"⟩]
    defaultIncludes := [⟨"/p/-p"⟩]
    warnings := [.empty "include"] }

theorem disguised_valid : disguised.Valid (fun _ => true) where
  root := ⟨['p'], by decide +kernel⟩
  macros m hm := by
    rw [← isMacroName_macroName_iff, List.mem_singleton.mp hm]
    decide +kernel
  includes p _ := (Config.finds_iff _ disguised p).mp rfl

theorem respelled_valid : respelled.Valid (fun p => p = ⟨"/p/-p"⟩) where
  root := disguised_valid.root
  macros := disguised_valid.macros
  includes p hp := by
    rw [← Config.finds_iff, List.mem_singleton.mp hp]
    decide +kernel

/-- The arguments are the same, and so is all that they stand for. -/
theorem arguments_determine_settings_disguised :
    Flag.arguments disguised.flags = Flag.arguments respelled.flags ∧
      disguised.resolvedIncludePaths = respelled.resolvedIncludePaths ∧
      disguised.resolvedDefaultIncludes = respelled.resolvedDefaultIncludes := by
  have hsame : Flag.arguments disguised.flags = Flag.arguments respelled.flags := by
    decide +kernel
  obtain ⟨-, -, hpaths, hincludes, -⟩ := arguments_determine_settings _ _ _ _ _ _
    (Config.optionsWhere_of_valid disguised_valid) (Config.optionsWhere_of_valid respelled_valid)
    hsame
  exact ⟨hsame, hpaths, hincludes⟩

end EditorCore.Settings
