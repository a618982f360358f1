import EditorCore.Proofs.Store.Tickets

set_option autoImplicit false

/-! # Two ways to read a file after a build

After a build a file can be read in two ways: out of the project's result, where the first file with
the path is found, or from the files of the project, where the last one has replaced those before
it. Let a build succeed while no other parse of its project begins or is merged. Its ticket is then
above all that its entry stores, so its result is the project's result and its files are the stored
ones (`QuietBuild.result?_after`, `QuietBuild.file?_after`). Hence the two ways agree exactly if the
first and the last file of the result are the same for every path (`build_reads_agree_iff`); a
result that lists a path twice, with different files, is read in two different ways
(`repeated_file_read_twice`).
-/

namespace EditorCore

theorem ParseResult.file?_eq_none_iff (r : ParseResult) (path : Path) :
    r.file? path = none ↔ ¬ r.Mentions path := by
  simp [file?, Mentions]

/-- A result that lists no path twice, in whatever spelling, has one file for each path. -/
theorem ParseResult.file?_eq_lastFile? {r : ParseResult}
    (h : r.files.Pairwise fun a b => a.path.same b.path = false) (path : Path) :
    r.file? path = r.lastFile? path := by
  rw [file?, lastFile?]
  generalize r.files = files at h
  induction files with
  | nil => rfl
  | cons file files ih =>
      obtain ⟨hfile, hfiles⟩ := List.pairwise_cons.mp h
      by_cases hsame : file.path.same path = true
      · have hothers : files.filter (fun f => f.path.same path) = [] := by
          rw [List.filter_eq_nil_iff]
          intro other hother hsame'
          have hboth := Store.path_equivalence.trans hsame (Store.path_equivalence.symm hsame')
          rw [hfile other hother] at hboth
          cases hboth
        simp [hsame, hothers]
      · simpa [hsame] using ih hfiles

namespace Store

/-- Every file of the project's result is what is stored for its path. -/
def ReadsAgree (s : Store) (project : String) : Prop :=
  ∀ result, s.result? project = some result →
    ∀ path file, result.file? path = some file → s.file? project path = some file

/-! ## Merging a build into an entry that stores nothing newer -/

namespace Entry.StoresBelow

variable {e : Entry} {ticket : Nat}

theorem result?_mergeInto (h : e.StoresBelow ticket) (result : ParseResult) :
    (Target.project.mergeInto e ticket result).result? = some result := by
  rw [Entry.result?, Target.mergeInto, Entry.install_latest_of_not_newer]
  · rfl
  · intro s hs
    rw [Entry.absorb_latest] at hs
    exact h.latest s hs

theorem file?_mergeInto (h : e.StoresBelow ticket) (result : ParseResult) (path : Path) :
    (Target.project.mergeInto e ticket result).file? path =
      (result.lastFile? path).or (e.file? path) := by
  have hle : ∀ s, e.files.get? path = some s → s.ticket ≤ ticket := fun s hs =>
    Nat.le_of_lt (h.files path s hs)
  rw [Entry.file?, Entry.file?, Target.mergeInto, Entry.install_files,
    Entry.get?_absorb_of_not_newer result hle]
  cases result.lastFile? path <;> rfl

end Entry.StoresBelow

/-! ## Turns that leave the parses of a project alone -/

namespace World

/-- From one world to another no parse of the project has begun and none was merged. -/
structure Quiet (project : String) (w w' : World) : Prop where
  begun : (w'.pending.filter (·.project = project)).Sublist (w.pending.filter (·.project = project))
  merged : w'.merged.filter (·.1.project = project) = w.merged.filter (·.1.project = project)

/-- In none of the turns a parse of the project begins or is merged. -/
def Undisturbed (project : String) : World → List Turn → Prop
  | _, [] => True
  | w, t :: turns => Quiet project w (w.turn t) ∧ Undisturbed project (w.turn t) turns

/-- What is stored for the project came with tickets below the limit. -/
def StoresBelow (w : World) (project : String) (limit : Nat) : Prop :=
  ∀ e, w.store.entry? project = some e → e.StoresBelow limit

variable {w w' : World} {project : String} {limit : Nat}

/-- Without a parse that begins or is merged, an entry can only be dropped or be new. -/
theorem StoresBelow.change (h : w.StoresBelow project limit) (c : Change w w')
    (hquiet : Quiet project w w') : w'.StoresBelow project limit := by
  intro e he
  cases c with
  | created project' context absent =>
      rw [lookup_putEntry] at he
      split at he
      · rw [← Option.some.inj he]
        exact .ofContext context limit
      · exact h e he
  | deleted project' f live =>
      rw [lookup_erase] at he
      split at he
      · cases he
      · exact h e he
  | began target project' f live =>
      have hne : project' ≠ project := by
        intro hsame
        have hlength := hquiet.begun.length_le
        simp only [List.filter_append, List.filter_cons, hsame, decide_true, if_true,
          List.length_append, List.length_cons] at hlength
        omega
      rw [lookup_putEntry_ne _ hne] at he
      exact h e he
  | dropped place => exact h e he
  | merged place q result f underWay live same =>
      have hne : q.project ≠ project := by
        intro hsame
        have hmerged := hquiet.merged
        simp [List.filter_append, hsame] at hmerged
      rw [lookup_putEntry_ne _ hne] at he
      exact h e he

theorem StoresBelow.atMostOne (h : w.StoresBelow project limit) (c : AtMostOne w w')
    (hquiet : Quiet project w w') : w'.StoresBelow project limit := by
  cases c with
  | refl => exact h
  | single c => exact h.change c hquiet

theorem StoresBelow.turn (h : w.StoresBelow project limit) {t : Turn}
    (hquiet : Quiet project w (w.turn t)) : (w.turn t).StoresBelow project limit := by
  rcases w.turn_cases t with hchange |
    ⟨w', target, name, context, hchange, hpending, hmerged, hturn⟩
  · exact h.atMostOne hchange hquiet
  · have hhalf : Quiet project w w' := ⟨by rw [hpending], by rw [hmerged]⟩
    rw [hturn] at hquiet ⊢
    refine (h.atMostOne hchange hhalf).atMostOne (w'.takeTicket_change target name context) ?_
    exact ⟨hpending ▸ hquiet.begun, hmerged ▸ hquiet.merged⟩

theorem StoresBelow.play {turns : List Turn} (h : w.StoresBelow project limit)
    (hquiet : w.Undisturbed project turns) : (w.play turns).StoresBelow project limit := by
  induction turns generalizing w with
  | nil => exact h
  | cons t turns ih => exact ih (h.turn hquiet.1) hquiet.2

/-! ## The ticket of a parse that begins -/

/-- A parse begins with the next ticket of its entry. -/
theorem storesBelow_of_began (hstored : w.StoresCounted) (c : AtMostOne w w') {q : Parse}
    (hbegan : w'.pending = w.pending ++ [q]) : w'.StoresBelow q.project q.ticket := by
  have hlonger : w.pending.length < w'.pending.length := by
    rw [hbegan, List.length_append]
    exact Nat.lt_succ_self _
  cases c with
  | refl => exact absurd hlonger (Nat.lt_irrefl _)
  | single c =>
      cases c with
      | created project context absent => exact absurd hlonger (Nat.lt_irrefl _)
      | deleted project e live => exact absurd hlonger (Nat.lt_irrefl _)
      | dropped place => exact absurd hlonger (Nat.not_lt.mpr (List.eraseIdx_sublist _ _).length_le)
      | merged place q' result e underWay live same =>
          exact absurd hlonger (Nat.not_lt.mpr (List.eraseIdx_sublist _ _).length_le)
      | began target project e live =>
          obtain rfl := List.singleton_inj.mp (List.append_cancel_left hbegan)
          intro f hf
          rw [lookup_putEntry_self] at hf
          rw [← Option.some.inj hf]
          exact (hstored project e live).counting _

/-- In a tidy world a parse begins with a ticket above all that its project stores. -/
theorem Tidy.storesBelow_of_began (h : w.Tidy) {t : Turn} {q : Parse}
    (hbegan : (w.turn t).pending = w.pending ++ [q]) :
    (w.turn t).StoresBelow q.project q.ticket := by
  rcases w.turn_cases t with hchange | ⟨w', target, name, context, hchange, hpending, -, hturn⟩
  · exact World.storesBelow_of_began h.stored hchange hbegan
  · have hstored : w'.StoresCounted := by
      cases hchange with
      | refl => exact h.stored
      | single c => exact h.stored_change c
    rw [hturn, ← hpending] at hbegan
    rw [hturn]
    exact World.storesBelow_of_began hstored (w'.takeTicket_change target name context) hbegan

end World

/-! ## Builds -/

/-- A build of a project among other callers. It begins in some turn, other callers take turns, and
it ends with a result; in between no other parse of the project begins or is merged. -/
structure QuietBuild (w : World) where
  first : Turn
  parse : Parse
  during : List Turn
  place : Nat
  result : ParseResult
  build : parse.target = .project
  began : (w.turn first).pending = w.pending ++ [parse]
  quiet : (w.turn first).Undisturbed parse.project during
  underWay : ((w.turn first).play during).pending[place]? = some parse
  succeeds : (((w.turn first).play during).store.endParse parse.target parse.project parse.context
    parse.ticket (.ok result)).value = .ok result

namespace QuietBuild

variable {w : World}

/-- The store right after the build. -/
def after (b : QuietBuild w) : Store :=
  (((w.turn b.first).play b.during).turn (.endParse b.place (.ok b.result))).store

/-- The entry that the build is merged into stores nothing newer. -/
theorem exists_merged (b : QuietBuild w) (h : w.Tidy) :
    ∃ e : Entry, e.StoresBelow b.parse.ticket ∧
      b.after.entry? b.parse.project =
        some (Target.project.mergeInto e b.parse.ticket b.result) := by
  have hbelow := (h.storesBelow_of_began b.began).play b.quiet
  have hvalue := b.succeeds
  rw [after, World.turn, b.underWay]
  rcases endParse_cases ((w.turn b.first).play b.during).store b.parse (.ok b.result) with
    ⟨⟨cause, herror⟩, -⟩ | ⟨result, e, hlive, -, hok, hstore⟩
  · rw [hvalue] at herror
    cases herror
  · rw [hvalue] at hok
    obtain rfl := Except.ok.inj hok
    refine ⟨e, hbelow e hlive, ?_⟩
    rw [b.build] at hstore
    simp only [b.build, hstore, lookup_putEntry_self]

/-- The result of the build is the project's result. -/
theorem result?_after (b : QuietBuild w) (h : w.Tidy) :
    b.after.result? b.parse.project = some b.result := by
  obtain ⟨e, hbelow, hentry⟩ := b.exists_merged h
  rw [result?, hentry]
  exact hbelow.result?_mergeInto b.result

/-- For a path that the build mentions, the last of its files is stored. -/
theorem file?_after (b : QuietBuild w) (h : w.Tidy) {path : Path} (hpath : b.result.Mentions path) :
    b.after.file? b.parse.project path = b.result.lastFile? path := by
  obtain ⟨e, hbelow, hentry⟩ := b.exists_merged h
  have hlast : b.result.lastFile? path ≠ none := by
    rw [Ne, ParseResult.lastFile?_eq_none_iff, not_not]
    exact hpath
  obtain ⟨file, hfile⟩ := Option.ne_none_iff_exists'.mp hlast
  rw [file?, hentry, Option.bind_some, hbelow.file?_mergeInto, hfile, Option.some_or]

end QuietBuild

/-- **When the two ways to read a file agree.** Take any turns of any callers in which no project is
given the handle of a parse of it that is under way, and after them a build that succeeds while no
other parse of its project begins or is merged. Its result is then the project's result, and every
file that is found in it is the one that is stored for its path if and only if for every path the
first and the last file of the result are the same. -/
theorem build_reads_agree_iff (turns : List Turn)
    (hnever : ∀ before t, before ++ [t] <+: turns → ¬ (World.start.play before).Reissues t)
    (b : QuietBuild (World.start.play turns)) :
    b.after.result? b.parse.project = some b.result ∧
      (b.after.ReadsAgree b.parse.project ↔
        ∀ path, b.result.file? path = b.result.lastFile? path) := by
  have htidy := World.play_tidy hnever
  have hresult := b.result?_after htidy
  refine ⟨hresult, ?_, ?_⟩
  · intro hagree path
    by_cases hpath : b.result.Mentions path
    · have hfound : b.result.file? path ≠ none := by
        rw [Ne, ParseResult.file?_eq_none_iff, not_not]
        exact hpath
      obtain ⟨file, hfile⟩ := Option.ne_none_iff_exists'.mp hfound
      rw [← b.file?_after htidy hpath, hagree _ hresult path file hfile, hfile]
    · rw [(b.result.file?_eq_none_iff path).mpr hpath,
        (b.result.lastFile?_eq_none_iff path).mpr hpath]
  · intro hsame result hresult' path file hfile
    rw [hresult] at hresult'
    obtain rfl := Option.some.inj hresult'
    have hpath : b.result.Mentions path := by
      by_contra hpath
      rw [(b.result.file?_eq_none_iff path).mpr hpath] at hfile
      cases hfile
    rw [b.file?_after htidy hpath, ← hsame path, hfile]

/-- A file with one word in it. -/
def oneWord (path : Path) (word : String) : SourceFile :=
  .ofRecords path [⟨.identifier, ⟨⟨0, 0⟩, word.length⟩, word⟩] [] []

/-- A project that was built once, by a build that has found one file. -/
def built : List Turn :=
  [.beginParse .project .empty "blink" (.ofRoot ⟨"/p"⟩) (.ok ⟨7⟩),
    .endParse 0 (.ok ⟨[oneWord ⟨"/p/a.nc"⟩ "old"], []⟩)]

/-- A second build, with other callers at work. It spells the path of the file in another way. -/
def rebuilt : QuietBuild (World.start.play built) where
  first := .beginParse .project .empty "blink" (.ofRoot ⟨"/p"⟩) (.ok ⟨8⟩)
  parse := ⟨.project, "blink", ⟨7⟩, 2, 0⟩
  during := [.beginParse .project .empty "sense" (.ofRoot ⟨"/q"⟩) (.ok ⟨9⟩)]
  place := 0
  result := ⟨[oneWord ⟨"/p/b.nc"⟩ "new", oneWord ⟨"/p//a.nc"⟩ "new"], []⟩
  build := rfl
  began := rfl
  quiet := ⟨⟨.refl _, rfl⟩, trivial⟩
  underWay := rfl
  succeeds := rfl

/-- The second build lists no path twice, so all of its files are read alike. -/
theorem rebuilt_reads_agree :
    (∀ before t, before ++ [t] <+: built → ¬ (World.start.play before).Reissues t) ∧
      rebuilt.after.result? "blink" = some rebuilt.result ∧
      rebuilt.after.ReadsAgree "blink" := by
  have hnever : ∀ before t, before ++ [t] <+: built → ¬ (World.start.play before).Reissues t := by
    rintro before t hmoment ⟨q, hq, habsent, -⟩
    rw [← List.mem_inits] at hmoment
    simp only [built, List.inits, List.map_cons, List.map_nil, List.mem_cons, List.not_mem_nil,
      or_false, List.append_eq_nil_iff, List.cons_ne_nil, and_false, false_or] at hmoment
    rcases hmoment with h | h
    · obtain rfl := List.append_inj_left' (show before ++ [t] = [] ++ [_] from h) rfl
      cases hq
    · -- The build that is under way has the context of its project.
      obtain rfl := List.append_inj_left' (show before ++ [t] = [_] ++ [_] from h) rfl
      obtain rfl := List.mem_singleton.mp hq
      cases habsent
  obtain ⟨hresult, hagree⟩ := build_reads_agree_iff built hnever rebuilt
  refine ⟨hnever, hresult, hagree.mpr fun path => ParseResult.file?_eq_lastFile? ?_ path⟩
  refine List.pairwise_pair.mpr ?_
  decide +kernel

/-- A build that lists a path twice. -/
def repeated : QuietBuild World.start where
  first := .beginParse .project .empty "blink" (.ofRoot ⟨"/work/blink"⟩) (.ok ⟨1⟩)
  parse := ⟨.project, "blink", ⟨1⟩, 1, 0⟩
  during := []
  place := 0
  result := ⟨[oneWord ⟨"/work/blink/a.nc"⟩ "old", oneWord ⟨"/work/blink/a.nc"⟩ "new"], []⟩
  build := rfl
  began := rfl
  quiet := trivial
  underWay := rfl
  succeeds := rfl

/-- The project's result has the first file for the path, and the last one is stored. -/
theorem repeated_file_read_twice :
    let path : Path := ⟨"/work/blink/a.nc"⟩
    repeated.after.result? "blink" = some repeated.result ∧
      repeated.result.file? path = some (oneWord path "old") ∧
      repeated.after.file? "blink" path = some (oneWord path "new") ∧
      oneWord path "old" ≠ oneWord path "new" ∧ ¬ repeated.after.ReadsAgree "blink" := by
  intro path
  have hpath : ∀ word, (oneWord path word).path.same path = true := fun _ =>
    path_equivalence.refl path
  have hresult := repeated.result?_after World.start_tidy
  have hfirst : repeated.result.file? path = some (oneWord path "old") := by
    show [oneWord path "old", oneWord path "new"].find? (fun f => f.path.same path) = _
    simp [hpath]
  have hlast : repeated.result.lastFile? path = some (oneWord path "new") := by
    show ([oneWord path "old", oneWord path "new"].filter fun f => f.path.same path).getLast? = _
    simp [hpath]
  have hstored : repeated.after.file? "blink" path = some (oneWord path "new") :=
    (repeated.file?_after World.start_tidy ⟨_, List.mem_cons_self, hpath _⟩).trans hlast
  have hne : oneWord path "old" ≠ oneWord path "new" := by
    intro h
    have htokens := congrArg SourceFile.tokens h
    simp [oneWord, SourceFile.ofRecords] at htokens
  refine ⟨hresult, hfirst, hstored, hne, ?_⟩
  intro hagree
  have hsame := hagree _ hresult path _ hfirst
  rw [hstored] at hsame
  exact hne (Option.some.inj hsame).symm

end Store

end EditorCore
