import EditorCore.Proofs.Settings.Reading
import EditorCore.Settings.Options

set_option autoImplicit false

/-! # Which settings are accepted

Settings are checked in a fixed order: the root, the macros, the files included by default. They are
accepted if nothing is wrong with any of these (`Config.Valid`), and then the list of options has
every setting in it, group by group (`Config.Lists`). Otherwise the error names the first thing that
is wrong in that order (`Config.Rejected`). One of the two is always the case
(`Config.valid_or_rejected`) and each decides what the check comes to, so both descriptions are
exact. Paths are looked for and listed as seen from the root; how such a path is written is said by
`Path.SeenFrom`.
-/

namespace EditorCore

namespace Path

/-- The path is absolute: its text starts with a separator. -/
def Rooted (p : Path) : Prop := ∃ rest, p.text.toList = '/' :: rest

/-- How a path is written as seen from a directory. An absolute path stays as it is. Any other
stands behind the text of the directory and a separator, which is left out where the directory ends
with one or has no text. -/
inductive SeenFrom (dir p : Path) : Path → Prop
  | absolute (rooted : p.Rooted) : SeenFrom dir p p
  | apart (relative : ¬ p.Rooted) (stop : ∃ c, dir.text.toList.getLast? = some c ∧ c ≠ '/') :
      SeenFrom dir p ⟨dir.text ++ "/" ++ p.text⟩
  | closed (relative : ¬ p.Rooted) (stop : ∀ c, dir.text.toList.getLast? = some c → c = '/') :
      SeenFrom dir p ⟨dir.text ++ p.text⟩

theorem isAbsolute_iff (p : Path) : p.isAbsolute = true ↔ p.Rooted := by
  rw [isAbsolute, beq_iff_eq, List.head?_eq_some_iff, Rooted]

/-- A separator goes behind a directory that ends with another character. -/
theorem join_of_apart {dir : Path} (h : ∃ c, dir.text.toList.getLast? = some c ∧ c ≠ '/')
    (p : Path) : dir.join p = ⟨dir.text ++ "/" ++ p.text⟩ := by
  obtain ⟨c, hlast, hc⟩ := h
  have hne : dir.text ≠ "" := by
    intro hempty
    rw [hempty] at hlast
    cases hlast
  simp [join, hlast, hc, hne]

/-- None goes behind a directory that ends with one or has no text. -/
theorem join_of_closed {dir : Path} (h : ∀ c, dir.text.toList.getLast? = some c → c = '/')
    (p : Path) : dir.join p = ⟨dir.text ++ p.text⟩ := by
  rw [join, if_pos]
  cases hlast : dir.text.toList.getLast? with
  | none =>
      have hnil : dir.text = "" := String.toList_eq_nil_iff.mp (List.getLast?_eq_none_iff.mp hlast)
      simp [hnil]
  | some c => simp [h c hlast]

/-- Resolving gives the path as seen from the directory. -/
theorem seenFrom_resolve (dir p : Path) : dir.SeenFrom p (dir.resolve p) := by
  rw [resolve]
  by_cases hp : p.isAbsolute = true
  · rw [if_pos hp]
    exact .absolute ((isAbsolute_iff p).mp hp)
  · rw [if_neg hp]
    rw [isAbsolute_iff] at hp
    by_cases hdir : ∃ c, dir.text.toList.getLast? = some c ∧ c ≠ '/'
    · rw [join_of_apart hdir]
      exact .apart hp hdir
    · have hclosed : ∀ c, dir.text.toList.getLast? = some c → c = '/' := by
        intro c hlast
        by_contra hc
        exact hdir ⟨c, hlast, hc⟩
      rw [join_of_closed hclosed]
      exact .closed hp hclosed

/-- A path is seen from a directory in one way, and that is the resolved path. -/
theorem seenFrom_iff (dir p q : Path) : dir.SeenFrom p q ↔ q = dir.resolve p := by
  constructor
  · intro h
    cases h with
    | absolute rooted => rw [resolve, if_pos ((isAbsolute_iff p).mpr rooted)]
    | apart relative stop =>
        rw [resolve, if_neg (mt (isAbsolute_iff p).mp relative), join_of_apart stop]
    | closed relative stop =>
        rw [resolve, if_neg (mt (isAbsolute_iff p).mp relative), join_of_closed stop]
  · rintro rfl
    exact seenFrom_resolve dir p

/-- Seen from an absolute directory, every path is absolute. -/
theorem SeenFrom.rooted {dir p q : Path} (h : dir.SeenFrom p q) (hdir : dir.Rooted) :
    q.Rooted := by
  obtain ⟨rest, hrest⟩ := hdir
  cases h with
  | absolute rooted => exact rooted
  | apart relative stop => exact ⟨rest ++ '/' :: p.text.toList, by simp [hrest]⟩
  | closed relative stop => exact ⟨rest ++ p.text.toList, by simp [hrest]⟩

theorem forall_rooted {dir : Path} (hdir : dir.Rooted) {given seen : List Path}
    (h : List.Forall₂ dir.SeenFrom given seen) : ∀ q ∈ seen, q.Rooted := by
  induction h with
  | nil => simp
  | cons hp more ih => exact List.forall_mem_cons.mpr ⟨hp.rooted hdir, ih⟩

end Path

namespace Settings

/-! ## Macro definitions -/

/-- An ASCII letter or an underscore. -/
def Letter (c : Char) : Prop := ('A' ≤ c ∧ c ≤ 'Z') ∨ ('a' ≤ c ∧ c ≤ 'z') ∨ c = '_'

/-- An ASCII digit. -/
def Digit (c : Char) : Prop := '0' ≤ c ∧ c ≤ '9'

/-- A letter, and after it letters and digits. -/
def Identifier (name : List Char) : Prop :=
  ∃ c rest, name = c :: rest ∧ Letter c ∧ ∀ d ∈ rest, Letter d ∨ Digit d

/-- The name is what stands in the definition before its first equals sign, and the whole definition
if it has none. -/
def Defines (definition : String) (name : List Char) : Prop :=
  '=' ∉ name ∧ (definition.toList = name ∨ ∃ value, definition.toList = name ++ '=' :: value)

/-- The definition defines an identifier. -/
def ValidMacro (definition : String) : Prop := ∃ name, Defines definition name ∧ Identifier name

theorem isNameStart_iff (c : Char) : isNameStart c = true ↔ Letter c := by
  -- The tests compare code points, which is what the order of characters does.
  have hupper : c.isUpper = decide ('A' ≤ c ∧ c ≤ 'Z') := rfl
  have hlower : c.isLower = (decide ('a' ≤ c) && decide (c ≤ 'z')) := rfl
  have halpha : c.isAlpha = (c.isUpper || c.isLower) := rfl
  simp [isNameStart, Letter, halpha, hupper, hlower, or_assoc]

theorem isNameChar_iff (c : Char) : isNameChar c = true ↔ Letter c ∨ Digit c := by
  have hdigit : c.isDigit = (decide ('0' ≤ c) && decide (c ≤ '9')) := rfl
  have halphanum : c.isAlphanum = (c.isAlpha || c.isDigit) := rfl
  rw [← isNameStart_iff]
  simp [isNameChar, isNameStart, Digit, halphanum, hdigit, or_right_comm]

theorem isMacroName_iff (name : List Char) : isMacroName name = true ↔ Identifier name := by
  cases name with
  | nil => simp [isMacroName, Identifier]
  | cons c rest =>
      simp only [isMacroName, Bool.and_eq_true, isNameStart_iff, List.all_eq_true, isNameChar_iff]
      constructor
      · rintro ⟨hc, hrest⟩
        exact ⟨c, rest, rfl, hc, hrest⟩
      · rintro ⟨d, tail, heq, hd, htail⟩
        obtain ⟨rfl, rfl⟩ := List.cons.inj heq
        exact ⟨hd, htail⟩

/-- The part of a text before its first equals sign. -/
theorem takeWhile_defines (text : List Char) :
    '=' ∉ text.takeWhile (· != '=') ∧ (text = text.takeWhile (· != '=') ∨
      ∃ value, text = text.takeWhile (· != '=') ++ '=' :: value) := by
  induction text with
  | nil => simp
  | cons c text ih =>
      by_cases hc : c = '='
      · simp [hc]
      · simp [hc, ih, Ne.symm hc]

theorem defines_iff (definition : String) (name : List Char) :
    Defines definition name ↔ name = macroName definition := by
  rw [Defines, macroName]
  constructor
  · rintro ⟨hname, htext⟩
    have hpos : ∀ c ∈ name, (c != '=') = true := by
      intro c hc
      simp only [bne_iff_ne]
      rintro rfl
      exact hname hc
    rcases htext with htext | ⟨value, htext⟩
    · rw [htext, ← List.append_nil name, List.takeWhile_append_of_pos hpos]
      simp
    · rw [htext, List.takeWhile_append_of_pos hpos]
      simp
  · rintro rfl
    exact takeWhile_defines definition.toList

theorem isMacroName_macroName_iff (definition : String) :
    isMacroName (macroName definition) = true ↔ ValidMacro definition := by
  rw [isMacroName_iff, ValidMacro]
  simp only [defines_iff, exists_eq_left]

/-! ## Lists that are checked member by member -/

/-- The first member of the list with the property. -/
def IsFirst {α : Type} (P : α → Prop) (xs : List α) (x : α) : Prop :=
  ∃ before after, xs = before ++ x :: after ∧ P x ∧ ∀ y ∈ before, ¬ P y

section

variable {α β : Type}

/-- The first member that fails a test. -/
theorem find?_eq_some_iff_isFirst {ok : α → Bool} {P : α → Prop} (h : ∀ x, ok x = true ↔ P x)
    (xs : List α) (x : α) :
    xs.find? (fun x => !ok x) = some x ↔ IsFirst (fun x => ¬ P x) xs x := by
  have hnot : ∀ x, (!ok x) = true ↔ ¬ P x := by
    intro x
    rw [← h x]
    simp
  simp only [List.find?_eq_some_iff_append, IsFirst, hnot, ← h]
  constructor
  · rintro ⟨hx, before, after, heq, hbefore⟩
    exact ⟨before, after, heq, hx, by simpa using hbefore⟩
  · rintro ⟨before, after, heq, hx, hbefore⟩
    exact ⟨hx, before, after, heq, by simpa using hbefore⟩

/-- No member fails a test. -/
theorem find?_eq_none_iff_forall {ok : α → Bool} {P : α → Prop} (h : ∀ x, ok x = true ↔ P x)
    (xs : List α) : xs.find? (fun x => !ok x) = none ↔ ∀ x ∈ xs, P x := by
  simp [← h]

/-- A check of all members: the values of all if they pass, and else the error of the first one that
does not. -/
theorem mapM_check (ok : α → Bool) (value : α → β) (error : α → SettingsError) (xs : List α) :
    xs.mapM (fun x => if ok x then Except.ok (value x) else .error (error x)) =
      (xs.find? fun x => !ok x).elim (.ok (xs.map value)) fun x => .error (error x) := by
  induction xs with
  | nil => rfl
  | cons x xs ih =>
      rw [List.mapM_cons, ih, List.find?_cons]
      cases ok x with
      | false => rfl
      | true => cases xs.find? (fun x => !ok x) <;> rfl

end

/-! ## The check of the settings -/

/-- The path that an option carries. -/
def Flag.path? : Flag → Option Path
  | includePath path => some path
  | defaultInclude path => some path
  | projectRoot path => some path
  | define _ => none
  | mainConfig _ => none

namespace Config

/-- The path, as seen from the root, leads to a file. -/
def Finds (isFile : Path → Bool) (c : Config) (p : Path) : Prop :=
  ∃ q, c.root.SeenFrom p q ∧ isFile q = true

/-- Nothing is wrong with the settings. -/
structure Valid (isFile : Path → Bool) (c : Config) : Prop where
  root : c.root.Rooted
  macros : ∀ m ∈ c.macros, ValidMacro m
  includes : ∀ p ∈ c.defaultIncludes, c.Finds isFile p

/-- What is wrong with the settings, the first thing in the order of the check. -/
def Rejected (isFile : Path → Bool) (c : Config) : SettingsError → Prop
  | .relativeRoot root => ¬ c.root.Rooted ∧ root = c.root
  | .invalidMacro m => c.root.Rooted ∧ IsFirst (fun m => ¬ ValidMacro m) c.macros m
  | .missingFile path => c.root.Rooted ∧ (∀ m ∈ c.macros, ValidMacro m) ∧
      ∃ p, IsFirst (fun p => ¬ c.Finds isFile p) c.defaultIncludes p ∧ c.root.SeenFrom p path
  | _ => False

/-- The options of settings with which nothing is wrong: a group for every kind, in the order of
the settings and with paths as seen from the root, and the root last. -/
def Lists (c : Config) (flags : List Flag) : Prop :=
  ∃ paths includes, List.Forall₂ c.root.SeenFrom c.includePaths paths ∧
    List.Forall₂ c.root.SeenFrom c.defaultIncludes includes ∧
    flags = paths.map .includePath ++ c.macros.map .define ++ includes.map .defaultInclude ++
      ((c.mainConfig.filter (· ≠ "")).map .mainConfig).toList ++ [.projectRoot c.root]

/-- The options that settings list. -/
def flags (c : Config) : List Flag :=
  c.resolvedIncludePaths.map .includePath ++ c.macros.map .define ++
    c.resolvedDefaultIncludes.map .defaultInclude ++
    ((c.mainConfig.filter (· ≠ "")).map .mainConfig).toList ++ [.projectRoot c.root]

theorem finds_iff (isFile : Path → Bool) (c : Config) (p : Path) :
    isFile (c.root.resolve p) = true ↔ c.Finds isFile p := by
  simp only [Finds, Path.seenFrom_iff, exists_eq_left]

theorem lists_iff (c : Config) (flags : List Flag) : c.Lists flags ↔ flags = c.flags := by
  simp only [Lists, forall₂_iff_eq_map (Path.seenFrom_iff c.root), exists_eq_left, exists_and_left]
  rfl

theorem mainFlag_eq (c : Config) :
    c.mainFlag = ((c.mainConfig.filter (· ≠ "")).map Flag.mainConfig).toList := by
  rw [mainFlag]
  cases c.mainConfig with
  | none => rfl
  | some name => by_cases hname : name = "" <;> simp [Option.filter, hname]

theorem mapM_checkMacro (c : Config) :
    c.macros.mapM checkMacro =
      (c.macros.find? fun m => !isMacroName (macroName m)).elim (.ok (c.macros.map .define))
        fun m => .error (.invalidMacro m) :=
  mapM_check (fun m => isMacroName (macroName m)) Flag.define .invalidMacro c.macros

theorem mapM_checkInclude (isFile : Path → Bool) (c : Config) :
    c.resolvedDefaultIncludes.mapM (checkInclude isFile) =
      (c.defaultIncludes.find? fun p => !isFile (c.root.resolve p)).elim
        (.ok (c.defaultIncludes.map fun p => .defaultInclude (c.root.resolve p)))
        fun p => .error (.missingFile (c.root.resolve p)) := by
  have hcheck := mapM_check isFile Flag.defaultInclude .missingFile c.resolvedDefaultIncludes
  simp only [resolvedDefaultIncludes, List.find?_map, List.map_map, Function.comp_def,
    Option.elim_map] at hcheck
  exact hcheck

section

variable {isFile : Path → Bool} {c : Config}

theorem optionsWhere_of_valid (h : c.Valid isFile) : c.optionsWhere isFile = .ok c.flags := by
  have hmacros := (find?_eq_none_iff_forall isMacroName_macroName_iff c.macros).mpr h.macros
  have hincludes := (find?_eq_none_iff_forall (finds_iff isFile c) c.defaultIncludes).mpr h.includes
  rw [optionsWhere, if_pos ((Path.isAbsolute_iff c.root).mpr h.root), mapM_checkMacro,
    mapM_checkInclude, hmacros, hincludes, flags, ← mainFlag_eq, resolvedDefaultIncludes,
    List.map_map]
  rfl

theorem optionsWhere_of_rejected {e : SettingsError} (h : c.Rejected isFile e) :
    c.optionsWhere isFile = .error e := by
  rw [optionsWhere]
  cases e with
  | relativeRoot root =>
      obtain ⟨hroot, rfl⟩ := h
      rw [if_neg (mt (Path.isAbsolute_iff c.root).mp hroot)]
  | invalidMacro m =>
      obtain ⟨hroot, hfirst⟩ := h
      rw [← find?_eq_some_iff_isFirst isMacroName_macroName_iff] at hfirst
      rw [if_pos ((Path.isAbsolute_iff c.root).mpr hroot), mapM_checkMacro, hfirst]
      rfl
  | missingFile path =>
      obtain ⟨hroot, hmacros, p, hfirst, hpath⟩ := h
      rw [← find?_eq_none_iff_forall isMacroName_macroName_iff] at hmacros
      rw [← find?_eq_some_iff_isFirst (finds_iff isFile c)] at hfirst
      rw [if_pos ((Path.isAbsolute_iff c.root).mpr hroot), mapM_checkMacro, mapM_checkInclude,
        hmacros, hfirst, (Path.seenFrom_iff c.root p path).mp hpath]
      rfl
  | malformed => cases h
  | unreadable path reason => cases h
  | missingRoot => cases h

/-- The first thing that is wrong, if anything is. -/
theorem valid_or_rejected (isFile : Path → Bool) (c : Config) :
    c.Valid isFile ∨ ∃ e, c.Rejected isFile e := by
  by_cases hroot : c.root.Rooted
  · cases hmacros : c.macros.find? (fun m => !isMacroName (macroName m)) with
    | some m =>
        rw [find?_eq_some_iff_isFirst isMacroName_macroName_iff] at hmacros
        exact Or.inr ⟨.invalidMacro m, hroot, hmacros⟩
    | none =>
        rw [find?_eq_none_iff_forall isMacroName_macroName_iff] at hmacros
        cases hincludes : c.defaultIncludes.find? (fun p => !isFile (c.root.resolve p)) with
        | some p =>
            rw [find?_eq_some_iff_isFirst (finds_iff isFile c)] at hincludes
            exact Or.inr ⟨.missingFile (c.root.resolve p), hroot, hmacros, p, hincludes,
              (Path.seenFrom_iff c.root p _).mpr rfl⟩
        | none =>
            rw [find?_eq_none_iff_forall (finds_iff isFile c)] at hincludes
            exact Or.inl ⟨hroot, hmacros, hincludes⟩
  · exact Or.inr ⟨.relativeRoot c.root, hroot, rfl⟩

theorem optionsWhere_eq_ok_iff {flags : List Flag} :
    c.optionsWhere isFile = .ok flags ↔ c.Valid isFile ∧ flags = c.flags := by
  constructor
  · intro h
    rcases valid_or_rejected isFile c with hvalid | ⟨e, hrejected⟩
    · rw [optionsWhere_of_valid hvalid] at h
      exact ⟨hvalid, (Except.ok.inj h).symm⟩
    · rw [optionsWhere_of_rejected hrejected] at h
      cases h
  · rintro ⟨hvalid, rfl⟩
    exact optionsWhere_of_valid hvalid

theorem optionsWhere_eq_error_iff {e : SettingsError} :
    c.optionsWhere isFile = .error e ↔ c.Rejected isFile e := by
  constructor
  · intro h
    rcases valid_or_rejected isFile c with hvalid | ⟨e', hrejected⟩
    · rw [optionsWhere_of_valid hvalid] at h
      cases h
    · rw [optionsWhere_of_rejected hrejected] at h
      exact Except.error.inj h ▸ hrejected
  · exact optionsWhere_of_rejected

theorem optionsWhere_eq_ok_iff_lists {flags : List Flag} :
    c.optionsWhere isFile = .ok flags ↔ c.Valid isFile ∧ c.Lists flags := by
  rw [optionsWhere_eq_ok_iff, lists_iff]

/-- The options of settings with an absolute root have absolute paths. -/
theorem Lists.rooted {flags : List Flag} (h : c.Lists flags) (hroot : c.root.Rooted) {flag : Flag}
    (hflag : flag ∈ flags) {path : Path} (hpath : flag.path? = some path) : path.Rooted := by
  obtain ⟨paths, includes, hpaths, hincludes, rfl⟩ := h
  simp only [List.mem_append, List.mem_map, Option.mem_toList, Option.map_eq_some_iff,
    List.mem_singleton] at hflag
  rcases hflag with (((⟨q, hq, rfl⟩ | ⟨m, -, rfl⟩) | ⟨q, hq, rfl⟩) | ⟨name, -, rfl⟩) | rfl
  · obtain rfl := Option.some.inj hpath
    exact Path.forall_rooted hroot hpaths q hq
  · cases hpath
  · obtain rfl := Option.some.inj hpath
    exact Path.forall_rooted hroot hincludes q hq
  · cases hpath
  · obtain rfl := Option.some.inj hpath
    exact hroot

end

end Config

/-- **Settings are checked completely and in a fixed order.** For all settings, and whichever paths
are files, by a file tree or otherwise: there are options exactly if the root is absolute, every
macro defines an identifier and every file included by default, as seen from the root, is there. The
options are then one for every include path, macro and file included by default, each kind in the
order of the settings and with paths as seen from the root, one for the main configuration if its
name is not empty, and last the root, and all their paths are absolute. Without options there is one
error, for the first of these that fails: the root, else the first macro that is not valid, else the
first file that is missing, with its path as seen from the root. -/
theorem settings_validated (isFile : Path → Bool) (c : Config) :
    (∀ files : FileTree, files.isFile = isFile → c.options files = c.optionsWhere isFile) ∧
    ((∃ flags, c.optionsWhere isFile = .ok flags) ↔ c.Valid isFile) ∧
    (∀ flags, c.optionsWhere isFile = .ok flags → c.Lists flags ∧
      ∀ flag ∈ flags, ∀ path, flag.path? = some path → path.Rooted) ∧
    (∀ e, c.optionsWhere isFile = .error e ↔ c.Rejected isFile e) := by
  refine ⟨?_, ?_, ?_, fun e => Config.optionsWhere_eq_error_iff⟩
  · rintro files rfl
    rfl
  · simp only [Config.optionsWhere_eq_ok_iff, exists_and_left, exists_eq, and_true]
  · intro flags hflags
    obtain ⟨hvalid, hlists⟩ := Config.optionsWhere_eq_ok_iff_lists.mp hflags
    exact ⟨hlists, fun flag hflag path => hlists.rooted hvalid.root hflag⟩

/-- The macros are looked at before the files, and the first bad one is named. -/
example : Config.optionsWhere (fun _ => false) ⟨⟨"/p"⟩, none, [], ["A", "1B=3", "=2"],
    [⟨"absent.h"⟩], []⟩ = .error (.invalidMacro "1B=3") := rfl

end Settings

end EditorCore
