import EditorCore.Proofs.Files.PathOrder
import EditorCore.Proofs.Store.NewestWins
import EditorCore.Proofs.Store.Outlived
import EditorCore.Proofs.Store.Rows

set_option autoImplicit false

/-! # The paths under which files are stored

An entry stores files under paths, and a path can be spelled in many ways. Whatever the spellings
that parses come with, an entry has one key for each path, and what is stored under a key is a file
with that path (`Entry.KeysSound`). A merge preserves this, so it holds in every world that callers
can reach.

The key of a path is spelled as it was when the path was first stored: a merge only ever adds keys
behind those that are there (`Entry.keys_absorb`), so keys stay as they are for as long as the entry
lives (`World.KeepsPaths`).
-/

namespace EditorCore.Store

/-! ## The keys of a table -/

namespace Table

variable {κ α : Type} {same : κ → κ → Bool}

/-- Storing a value adds a key behind the others, or none if the key is there in some spelling. -/
theorem keys_put (t : Table κ α same) (key : κ) (value : α) :
    (t.put key value).keys = if t.contains key then t.keys else t.keys ++ [key] := by
  rw [put]
  split
  · rw [keys, List.map_map, keys]
    apply List.map_congr_left
    intro row _
    simp only [Function.comp_apply]
    split <;> rfl
  · simp [keys]

theorem isSome_get?_iff (t : Table κ α same) (key : κ) :
    (t.get? key).isSome = true ↔ ∃ k ∈ t.keys, same k key = true := by
  rw [← contains_eq_isSome, contains, List.any_eq_true]
  simp [keys]

end Table

/-! ## One entry -/

namespace Entry

theorem mem_paths (e : Entry) (p : Path) : p ∈ e.paths ↔ p ∈ e.files.keys := by
  rw [paths, List.mem_mergeSort]

theorem isSome_file?_iff (e : Entry) (p : Path) :
    (e.file? p).isSome = true ↔ ∃ q ∈ e.paths, q.same p = true := by
  simp only [file?, Option.isSome_map, Table.isSome_get?_iff, mem_paths]

/-- One file adds at most its own path, and no second spelling of a key. -/
theorem keys_absorbFile (e : Entry) (ticket : Nat) (file : SourceFile) :
    (absorbFile ticket e file).files.keys =
      if e.files.contains file.path then e.files.keys else e.files.keys ++ [file.path] := by
  rw [absorbFile]
  cases hnewer : e.newer? ticket file.path with
  | none => exact Table.keys_put e.files file.path _
  | some stored =>
      -- A file that is kept back is already there.
      have hcontains : e.files.contains file.path = true := by
        rw [Table.contains_eq_isSome]
        rw [newer?] at hnewer
        cases hget : e.files.get? file.path with
        | none => simp [hget] at hnewer
        | some s => rfl
      rw [if_pos hcontains]

/-- A merge adds keys behind those that are there. -/
theorem keys_absorb (e : Entry) (ticket : Nat) (result : ParseResult) :
    e.files.keys <+: (e.absorb ticket result).files.keys := by
  rw [absorb]
  induction result.files generalizing e with
  | nil => exact List.prefix_refl _
  | cons file files ih =>
      refine List.IsPrefix.trans ?_ (ih (absorbFile ticket e file))
      rw [keys_absorbFile]
      split
      · exact List.prefix_refl _
      · exact List.prefix_append _ _

/-- What is read for a path after a merge: the last file of the parse with that path, unless it has
none or a later parse has stored one. -/
theorem file?_absorb (e : Entry) (ticket : Nat) (result : ParseResult) (path : Path) :
    (e.absorb ticket result).file? path =
      if e.newer? ticket path = none then (result.lastFile? path).or (e.file? path)
      else e.file? path := by
  by_cases hnewer : e.newer? ticket path = none
  · rw [if_pos hnewer, file?, file?,
      get?_absorb_of_not_newer result ((e.newer?_eq_none_iff ticket path).mp hnewer)]
    cases result.lastFile? path <;> rfl
  · rw [if_neg hnewer]
    rw [newer?_eq_none_iff] at hnewer
    push Not at hnewer
    obtain ⟨s, hs, hlt⟩ := hnewer
    rw [file?, file?, get?_absorb_of_newer result hs hlt, hs]

/-- Every path has one key, and what is stored under a key is a file with that path. -/
structure KeysSound (e : Entry) : Prop where
  distinct : e.files.Distinct
  own : ∀ path s, e.files.get? path = some s → s.value.path.same path = true

namespace KeysSound

variable {e : Entry}

theorem ofContext (context : ContextHandle) : (Entry.ofContext context).KeysSound where
  distinct := Table.distinct_empty
  own _ _ hs := by cases hs

theorem absorbFile (h : e.KeysSound) (ticket : Nat) (file : SourceFile) :
    (Entry.absorbFile ticket e file).KeysSound where
  distinct := by
    rw [Entry.absorbFile]
    cases e.newer? ticket file.path with
    | none => exact h.distinct.put file.path _
    | some stored => exact h.distinct
  own path s hs := by
    rw [get?_absorbFile] at hs
    split at hs
    · rename_i hpath
      rw [← Option.some.inj hs]
      exact hpath.1
    · exact h.own path s hs

theorem absorb (h : e.KeysSound) (ticket : Nat) (result : ParseResult) :
    (e.absorb ticket result).KeysSound := by
  rw [Entry.absorb]
  induction result.files generalizing e with
  | nil => exact h
  | cons file files ih => exact ih (h.absorbFile ticket file)

/-- The keys, in order, are strictly increasing. -/
theorem paths_increasing (h : e.KeysSound) :
    e.paths.Pairwise fun p q => p.components < q.components :=
  Path.pairwise_lt_mergeSort (List.pairwise_map.mpr h.distinct)

/-- A file that is read has the path under which it is read. -/
theorem path_same (h : e.KeysSound) {path : Path} {file : SourceFile}
    (hfile : e.file? path = some file) : file.path.same path = true := by
  obtain ⟨s, hs, rfl⟩ := Option.map_eq_some_iff.mp hfile
  exact h.own path s hs

end KeysSound

end Entry

/-- Whatever it covers, a parse that is merged stores its files and nothing else among the files. -/
theorem Target.mergeInto_files (target : Target) (e : Entry) (ticket : Nat)
    (result : ParseResult) :
    (target.mergeInto e ticket result).files = (e.absorb ticket result).files := by
  cases target with
  | project => exact Entry.install_files _ ticket result
  | file path => rfl

theorem Entry.KeysSound.mergeInto {e : Entry} (h : e.KeysSound) (ticket : Nat)
    (result : ParseResult) (target : Target) :
    (target.mergeInto e ticket result).KeysSound where
  distinct := target.mergeInto_files e ticket result ▸ (h.absorb ticket result).distinct
  own := target.mergeInto_files e ticket result ▸ (h.absorb ticket result).own

/-! ## All entries -/

theorem paths_of_some {s : Store} {project : String} {e : Entry}
    (h : s.entry? project = some e) : s.paths project = e.paths := by
  rw [paths, h]

theorem paths_of_none {s : Store} {project : String} (h : s.entry? project = none) :
    s.paths project = [] := by
  rw [paths, h]

/-- A file is read for the paths that are listed in some spelling. -/
theorem isSome_file?_iff (s : Store) (project : String) (p : Path) :
    (s.file? project p).isSome = true ↔ ∃ q ∈ s.paths project, q.same p = true := by
  rw [file?]
  cases hentry : s.entry? project with
  | none => simp [paths_of_none hentry]
  | some e =>
      rw [paths_of_some hentry]
      exact e.isSome_file?_iff p

/-- All spellings of a path read the same. -/
theorem file?_congr (s : Store) (project : String) {p q : Path} (h : p.same q = true) :
    s.file? project p = s.file? project q := by
  rw [file?_eq_map, file?_eq_map]
  cases s.entry? project with
  | none => rfl
  | some e => simp only [Option.bind_some, Table.get?_congr path_equivalence e.files h]

namespace World

/-- The keys of all entries are sound. -/
def KeysSound (w : World) : Prop :=
  ∀ project e, w.store.entry? project = some e → e.KeysSound

theorem KeysSound.change {w w' : World} (h : w.KeysSound) (c : Change w w') : w'.KeysSound := by
  cases c with
  | created project context absent =>
      exact forall_lookup_putEntry (.ofContext context) fun project' f _ hf => h project' f hf
  | deleted project e live => exact forall_lookup_erase fun project' f _ hf => h project' f hf
  | began target project e live =>
      refine forall_lookup_putEntry ?_ fun project' f _ hf => h project' f hf
      exact ⟨(h project e live).distinct, (h project e live).own⟩
  | dropped place => exact h
  | merged place q result e underWay live same =>
      refine forall_lookup_putEntry ?_ fun project' f _ hf => h project' f hf
      exact (h q.project e live).mergeInto q.ticket result q.target

theorem KeysSound.changes {w w' : World} (h : w.KeysSound) (c : Changes w w') : w'.KeysSound := by
  induction c with
  | refl => exact h
  | tail _ last ih => exact ih.change last

/-- In every world that callers can reach the keys are sound. -/
theorem play_keysSound (turns : List Turn) : (start.play turns).KeysSound := by
  have hstart : start.KeysSound := fun project e he => by cases he
  exact hstart.changes (start.play_changes turns)

/-- A file that is read has the path under which it is read. -/
theorem KeysSound.path_same {w : World} (h : w.KeysSound) {project : String} {path : Path}
    {file : SourceFile} (hfile : w.store.file? project path = some file) :
    file.path.same path = true := by
  obtain ⟨e, hentry, he⟩ := Option.bind_eq_some_iff.mp hfile
  exact (h project e hentry).path_same he

theorem KeysSound.paths_increasing {w : World} (h : w.KeysSound) (project : String) :
    (w.store.paths project).Pairwise fun p q => p.components < q.components := by
  cases hentry : w.store.entry? project with
  | none =>
      rw [paths_of_none hentry]
      exact List.Pairwise.nil
  | some e =>
      rw [paths_of_some hentry]
      exact (h project e hentry).paths_increasing

/-! ## Keys that stay -/

/-- From one world to another, the paths of a project stay as they are spelled unless its entry was
deleted in between. -/
structure KeepsPaths (project : String) (w w' : World) : Prop where
  forward : w.era project ≤ w'.era project
  kept : w'.era project = w.era project → ∀ p ∈ w.store.paths project, p ∈ w'.store.paths project

variable {project : String} {w w' w'' : World}

theorem KeepsPaths.of_eq (hera : w'.era project = w.era project)
    (hpaths : w'.store.paths project = w.store.paths project) : KeepsPaths project w w' where
  forward := Nat.le_of_eq hera.symm
  kept _ _ hp := hpaths ▸ hp

theorem KeepsPaths.trans (h : KeepsPaths project w w') (h' : KeepsPaths project w' w'') :
    KeepsPaths project w w'' where
  forward := h.forward.trans h'.forward
  kept hera p hp := by
    -- Eras only go up, so nothing was deleted on either part of the way.
    have hforward := h.forward
    have hforward' := h'.forward
    exact h'.kept (by omega) p (h.kept (by omega) p hp)

theorem keepsPaths_change (project : String) (c : Change w w') : KeepsPaths project w w' := by
  cases c with
  | created project' context absent =>
      refine ⟨Nat.le_refl _, fun _ p hp => ?_⟩
      by_cases hproject : project' = project
      · rw [← hproject, paths_of_none absent] at hp
        cases hp
      · rwa [paths, lookup_putEntry_ne _ hproject]
  | deleted project' e live =>
      by_cases hproject : project' = project
      · subst hproject
        refine ⟨?_, fun hera => ?_⟩
        · simp
        · simp at hera
      · refine .of_eq (Function.update_of_ne (Ne.symm hproject) _ _) ?_
        rw [paths, lookup_erase, if_neg hproject]
        rfl
  | began target project' e live =>
      refine .of_eq rfl ?_
      by_cases hproject : project' = project
      · subst hproject
        rw [paths_of_some live, paths_of_some (lookup_putEntry_self _ _ _)]
        rfl
      · rw [paths, lookup_putEntry_ne _ hproject]
        rfl
  | dropped place => exact .of_eq rfl rfl
  | merged place q result e underWay live same =>
      refine ⟨Nat.le_refl _, fun _ p hp => ?_⟩
      by_cases hproject : q.project = project
      · subst hproject
        rw [paths_of_some live, Entry.mem_paths] at hp
        rw [paths_of_some (lookup_putEntry_self _ _ _), Entry.mem_paths, Target.mergeInto_files]
        exact (e.keys_absorb q.ticket result).subset hp
      · rwa [paths, lookup_putEntry_ne _ hproject]

theorem keepsPaths_changes (project : String) (c : Changes w w') : KeepsPaths project w w' := by
  induction c with
  | refl => exact .of_eq rfl rfl
  | tail _ last ih => exact ih.trans (keepsPaths_change project last)

/-! ## The end of a parse -/

theorem endParse_era (w : World) (place : Nat) (answer : Except FrontEndError ParseResult) :
    (w.turn (.endParse place answer)).era = w.era := by
  simp only [turn]
  cases w.pending[place]? <;> rfl

/-- The end of a parse whose entry is there is a merge. -/
theorem endParse_store_of_live {place : Nat} {q : Parse} {e : Entry}
    (underWay : w.pending[place]? = some q) (live : w.store.entry? q.project = some e)
    (same : e.context = q.context) (result : ParseResult) :
    (w.turn (.endParse place (.ok result))).store =
      w.store.putEntry q.project (q.target.mergeInto e q.ticket result) := by
  have hcontext : w.store.context? q.project = some q.context := by
    rw [context?, live, ← same]
    rfl
  have hvalue := endParse_of_live hcontext result
  simp only [turn, underWay]
  rcases endParse_cases w.store q (.ok result) with ⟨⟨cause, herror⟩, -⟩ |
    ⟨result', e', hlive, -, hok, hstore⟩
  · rw [hvalue] at herror
    cases herror
  · rw [hvalue] at hok
    rw [live] at hlive
    obtain rfl := Except.ok.inj hok
    obtain rfl := Option.some.inj hlive
    exact hstore

end World

/-- **One key for each path.** After any turns of any callers, whatever the front end answers, and
for every project: the listed paths are strictly increasing, so that no path is listed in two
spellings; each has a file, and the file's own path is a spelling of it; a file is read for a path
exactly if a spelling of the path is listed, and the same file for all spellings. As long as the
project's entry lives, a path that is listed stays so in the spelling that it has and gets no second
one. When a parse is merged the paths stay in this way too, however the parse spells them, and what
is read for a path is the last file of the parse with that path, unless there is none or a parse
that started later has stored one. -/
theorem stored_paths_consistent (turns : List Turn) (project : String) :
    let w := World.start.play turns
    (w.store.paths project).Pairwise (fun p q => p.components < q.components) ∧
    (∀ p ∈ w.store.paths project,
      ∃ file, w.store.file? project p = some file ∧ file.path.same p = true) ∧
    (∀ p, (w.store.file? project p).isSome = true ↔
      ∃ q ∈ w.store.paths project, q.same p = true) ∧
    (∀ p q, p.same q = true → w.store.file? project p = w.store.file? project q) ∧
    (∀ later, (w.play later).era project = w.era project →
      Path.known (w.store.paths project) ((w.play later).store.paths project) =
        w.store.paths project) ∧
    (∀ place q e result, w.pending[place]? = some q → q.project = project →
      w.store.entry? project = some e → e.context = q.context →
      let w' := w.turn (.endParse place (.ok result))
      Path.known (w.store.paths project) (w'.store.paths project) = w.store.paths project ∧
      ∀ path, w'.store.file? project path =
        if e.newer? q.ticket path = none then
          (result.lastFile? path).or (w.store.file? project path)
        else w.store.file? project path) := by
  intro w
  have hw : w.KeysSound := World.play_keysSound turns
  have hlater : ∀ later, (w.play later).era project = w.era project →
      Path.known (w.store.paths project) ((w.play later).store.paths project) =
        w.store.paths project := by
    intro later hera
    have hchanges := w.play_changes later
    have hsound := hw.changes hchanges
    exact Path.known_eq (hw.paths_increasing project) (hsound.paths_increasing project)
      ((World.keepsPaths_changes project hchanges).kept hera)
  refine ⟨hw.paths_increasing project, ?_, w.store.isSome_file?_iff project,
    fun p q => w.store.file?_congr project, hlater, ?_⟩
  · intro p hp
    have hsome : (w.store.file? project p).isSome = true :=
      (w.store.isSome_file?_iff project p).mpr ⟨p, hp, path_equivalence.refl p⟩
    obtain ⟨file, hfile⟩ := Option.isSome_iff_exists.mp hsome
    exact ⟨file, hfile, hw.path_same hfile⟩
  · rintro place q e result underWay rfl live same w'
    have hstore := World.endParse_store_of_live underWay live same result
    refine ⟨hlater [.endParse place (.ok result)] (congrFun (w.endParse_era place _) _), ?_⟩
    intro path
    rw [show w'.store = _ from hstore, file?, lookup_putEntry_self, file?, live]
    simp only [Option.bind_some]
    rw [Entry.file?, Target.mergeInto_files]
    exact e.file?_absorb q.ticket result path

/-- A project that was built, and an update of its one file under way. -/
def updating : List Turn :=
  [.beginParse .project .empty "blink" (.ofRoot ⟨"/p"⟩) (.ok ⟨7⟩),
    .endParse 0 (.ok ⟨[bareFile ⟨"/p/a.nc"⟩], []⟩),
    .beginParse (.file ⟨"/p/a.nc"⟩) .empty "blink" (.ofRoot ⟨"/p"⟩) (.ok ⟨8⟩)]

/-- The update spells the path of the file in another way, and brings a file whose path differs from
it only in being relative. The first is stored under the key that is there, the second apart. -/
theorem stored_paths_consistent_respelled :
    let w := (World.start.play updating).turn
      (.endParse 0 (.ok ⟨[bareFile ⟨"/p/.//a.nc"⟩, bareFile ⟨"p/a.nc"⟩], []⟩))
    Path.known [⟨"/p/a.nc"⟩] (w.store.paths "blink") = [⟨"/p/a.nc"⟩] ∧
      w.store.file? "blink" ⟨"/p/a.nc"⟩ = some (bareFile ⟨"/p/.//a.nc"⟩) ∧
      w.store.file? "blink" ⟨"p/a.nc"⟩ = some (bareFile ⟨"p/a.nc"⟩) := by
  intro w
  have hpaths : (World.start.play updating).store.paths "blink" = [⟨"/p/a.nc"⟩] :=
    List.mergeSort_singleton _
  obtain ⟨-, -, -, -, -, hmerge⟩ := stored_paths_consistent updating "blink"
  obtain ⟨hknown, hfile⟩ := hmerge 0 ⟨.file ⟨"/p/a.nc"⟩, "blink", ⟨7⟩, 2, 0⟩ _
    ⟨[bareFile ⟨"/p/.//a.nc"⟩, bareFile ⟨"p/a.nc"⟩], []⟩ rfl rfl rfl rfl
  rw [hpaths] at hknown
  refine ⟨hknown, (hfile _).trans ?_, (hfile _).trans ?_⟩
  all_goals
    rw [if_pos]
    · rfl
    · -- All that is stored comes from the build, which started earlier.
      rw [Entry.newer?_eq_none_iff]
      intro s hs
      obtain ⟨row, hrow, rfl⟩ := Option.map_eq_some_iff.mp hs
      rw [List.mem_singleton.mp (List.mem_of_find?_eq_some hrow)]
      decide

end EditorCore.Store
