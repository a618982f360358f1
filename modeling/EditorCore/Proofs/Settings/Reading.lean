import EditorCore.Settings.Config
import Mathlib.Data.List.Forall2

set_option autoImplicit false

/-! # What becomes of every setting

A document is a sequence of nodes, and a node sets its name to the texts that it has by position
(`Document.Node.Sets`): properties do not count, nor do arguments that are no texts. What turns a
text into nodes is left open.

Settings are read one after another, into a draft. Each setting is a small draft of its own
(`Draft.add_eq`), and drafts that follow one another are joined by `Draft.followedBy`: the texts and
warnings of both are kept, and of two roots or main configurations the later one. So the draft of a
sequence is the join of its parts, whatever their number and order (`Draft.collected_append`), and
each of its fields can be told from the sequence directly: `lastText?` for a setting that the last
node decides, `allTexts` for one that collects, and `Setting.warning?` for what is passed over.
-/

namespace EditorCore

/-- A relation that is the graph of a function relates a list to its image only. -/
theorem forall₂_iff_eq_map {α β : Type} {R : α → β → Prop} {f : α → β}
    (h : ∀ a b, R a b ↔ b = f a) (as : List α) (bs : List β) :
    List.Forall₂ R as bs ↔ bs = as.map f := by
  have hgraph : R = fun a b => f a = b := by
    funext a b
    exact propext ((h a b).trans eq_comm)
  rw [hgraph, ← List.forall₂_map_left_iff, List.forall₂_eq_eq_eq, eq_comm]

/-! ## What a node sets -/

namespace Document

/-- The texts that entries give by position: the arguments that are texts, in order. Properties and
other values are passed over. -/
inductive Positional : List Entry → List String → Prop
  | nil : Positional [] []
  | text {entries : List Entry} {texts : List String} (s : String)
      (more : Positional entries texts) : Positional (.argument (.text s) :: entries) (s :: texts)
  | other {entries : List Entry} {texts : List String} (e : Entry)
      (passed : ∀ s, e ≠ .argument (.text s)) (more : Positional entries texts) :
      Positional (e :: entries) texts

theorem positional_filterMap (entries : List Entry) :
    Positional entries (entries.filterMap Entry.text?) := by
  induction entries with
  | nil => exact .nil
  | cons e entries ih =>
      cases htext : e.text? with
      | some s =>
          rw [List.filterMap_cons_some htext, Entry.text?_eq_some_iff.mp htext]
          exact .text s ih
      | none =>
          rw [List.filterMap_cons_none htext]
          refine .other e (fun s hs => ?_) ih
          rw [Entry.text?_eq_some_iff.mpr hs] at htext
          cases htext

/-- The positional texts of a node are the ones it is read with, and no others. -/
theorem positional_iff (n : Node) (texts : List String) :
    Positional n.entries texts ↔ texts = n.texts := by
  constructor
  · rw [Node.texts]
    generalize n.entries = entries
    intro h
    induction h with
    | nil => rfl
    | text s more ih => rw [List.filterMap_cons_some (Entry.text?_eq_some_iff.mpr rfl), ih]
    | other e passed more ih =>
        have hnone : e.text? = none := by
          rw [Option.eq_none_iff_forall_ne_some]
          intro s hs
          exact passed s (Entry.text?_eq_some_iff.mp hs)
        rw [List.filterMap_cons_none hnone, ih]
  · rintro rfl
    exact positional_filterMap n.entries

/-- A node sets its name to its positional texts. -/
structure Node.Sets (n : Node) (s : Settings.Setting) : Prop where
  name : s.name = n.name
  values : Positional n.entries s.values

theorem Node.sets_iff (n : Node) (s : Settings.Setting) : n.Sets s ↔ s = .ofNode n := by
  obtain ⟨name, values⟩ := s
  constructor
  · rintro ⟨rfl, hvalues⟩
    rw [(positional_iff n values).mp hvalues]
    rfl
  · intro h
    obtain ⟨rfl, rfl⟩ := Settings.Setting.mk.inj h
    exact ⟨rfl, (positional_iff n n.texts).mpr rfl⟩

end Document

namespace Settings

/-! ## What a sequence of settings says -/

/-- The first text of the last of the settings that have the name and any text. -/
def lastText? (settings : List Setting) (name : String) : Option String :=
  ((settings.filter (·.name = name)).filterMap (·.values.head?)).getLast?

/-- The texts of all settings with the name, in order. -/
def allTexts (settings : List Setting) (name : String) : List String :=
  (settings.filter (·.name = name)).flatMap (·.values)

/-- The names that mean something. -/
def knownNames : List String := ["root", "main-config", "include", "define", "default-include"]

/-- The warning that a setting leaves behind: it has no text, or it has one and its name means
nothing. -/
def Setting.warning? (s : Setting) : Option Warning :=
  if s.values = [] then some (.empty s.name)
  else if s.name ∈ knownNames then none
  else some (.unknown s.name)

theorem lastText?_append (a b : List Setting) (name : String) :
    lastText? (a ++ b) name = (lastText? b name).or (lastText? a name) := by
  simp [lastText?, List.getLast?_append]

theorem allTexts_append (a b : List Setting) (name : String) :
    allTexts (a ++ b) name = allTexts a name ++ allTexts b name := by
  simp [allTexts]

theorem lastText?_singleton (s : Setting) (name : String) :
    lastText? [s] name = if s.name = name then s.values.head? else none := by
  rw [lastText?]
  by_cases hname : s.name = name
  · cases hhead : s.values.head? <;> simp [hname, hhead]
  · simp [hname]

theorem allTexts_singleton (s : Setting) (name : String) :
    allTexts [s] name = if s.name = name then s.values else [] := by
  by_cases hname : s.name = name <;> simp [allTexts, hname]

theorem isSome_lastText?_iff (settings : List Setting) (name : String) :
    (lastText? settings name).isSome = true ↔
      ∃ s ∈ settings, s.name = name ∧ s.values ≠ [] := by
  induction settings with
  | nil => simp [lastText?]
  | cons s settings ih =>
      rw [← List.singleton_append, lastText?_append, Option.isSome_or, Bool.or_eq_true, ih,
        lastText?_singleton]
      by_cases hname : s.name = name <;> simp [hname, or_comm]

namespace Draft

/-! ## Drafts that follow one another -/

/-- Two drafts, one read after the other. -/
def followedBy (d e : Draft) : Draft where
  root := e.root.or d.root
  mainConfig := e.mainConfig.or d.mainConfig
  includePaths := d.includePaths ++ e.includePaths
  macros := d.macros ++ e.macros
  defaultIncludes := d.defaultIncludes ++ e.defaultIncludes
  warnings := d.warnings ++ e.warnings

/-- The draft that a sequence of settings comes to, field by field. -/
def collected (settings : List Setting) : Draft where
  root := (lastText? settings "root").map Path.mk
  mainConfig := lastText? settings "main-config"
  includePaths := (allTexts settings "include").map Path.mk
  macros := allTexts settings "define"
  defaultIncludes := (allTexts settings "default-include").map Path.mk
  warnings := settings.filterMap Setting.warning?

theorem empty_followedBy (d : Draft) : empty.followedBy d = d := by
  simp [followedBy, empty]

theorem followedBy_empty (d : Draft) : d.followedBy empty = d := by
  simp [followedBy, empty]

theorem followedBy_assoc (d e f : Draft) :
    (d.followedBy e).followedBy f = d.followedBy (e.followedBy f) := by
  simp [followedBy, Option.or_assoc]

theorem collected_append (a b : List Setting) :
    collected (a ++ b) = (collected a).followedBy (collected b) := by
  simp only [collected, followedBy, lastText?_append, allTexts_append, List.map_append,
    List.filterMap_append, Draft.mk.injEq, and_true]
  cases lastText? b "root" <;> rfl

/-- One more setting is a draft of its own, read last. -/
theorem add_eq (d : Draft) (s : Setting) : d.add s = d.followedBy (collected [s]) := by
  obtain ⟨name, values⟩ := s
  cases values with
  | nil =>
      simp [add, warn, followedBy, collected, lastText?_singleton, allTexts_singleton,
        Setting.warning?]
  | cons first more =>
      -- A known name decides which field is set; an unknown one is none of the five.
      simp only [add, collected, lastText?_singleton, allTexts_singleton]
      split <;> simp_all [followedBy, warn, Setting.warning?, knownNames]

theorem foldl_add (settings : List Setting) (d : Draft) :
    settings.foldl add d = d.followedBy (collected settings) := by
  induction settings generalizing d with
  | nil => exact (followedBy_empty d).symm
  | cons s settings ih =>
      calc (s :: settings).foldl add d
          = (d.add s).followedBy (collected settings) := ih (d.add s)
        _ = d.followedBy ((collected [s]).followedBy (collected settings)) := by
            rw [add_eq, followedBy_assoc]
        _ = d.followedBy (collected (s :: settings)) := by
            rw [← collected_append, List.singleton_append]

/-- A draft is complete exactly if it has a root. -/
theorem complete_eq_ok_iff (d : Draft) (c : Config) :
    d.complete = .ok c ↔ d = ⟨some c.root, c.mainConfig, c.includePaths, c.macros,
      c.defaultIncludes, c.warnings⟩ := by
  obtain ⟨root, mainConfig, includePaths, macros, defaultIncludes, warnings⟩ := d
  obtain ⟨root', mainConfig', includePaths', macros', defaultIncludes', warnings'⟩ := c
  cases root with
  | none => simp [complete]
  | some root => simp [complete]

theorem complete_eq_error_iff (d : Draft) (e : SettingsError) :
    d.complete = .error e ↔ d.root = none ∧ e = .missingRoot := by
  rw [complete]
  cases d.root with
  | none => simp [eq_comm]
  | some root => simp

end Draft

namespace Config

/-- Settings are read field by field. -/
theorem ofSettings_eq (settings : List Setting) :
    ofSettings settings = (Draft.collected settings).complete := by
  rw [ofSettings, Draft.foldl_add, Draft.empty_followedBy]

theorem ofSettings_eq_ok_iff (settings : List Setting) (c : Config) :
    ofSettings settings = .ok c ↔ Draft.collected settings = ⟨some c.root, c.mainConfig,
      c.includePaths, c.macros, c.defaultIncludes, c.warnings⟩ := by
  rw [ofSettings_eq, Draft.complete_eq_ok_iff]

/-- Settings read after others: what both collect is kept, and what the last one decides is taken
from the later ones where they say anything. -/
theorem ofSettings_append {settings more : List Setting} {a b : Config}
    (ha : ofSettings settings = .ok a) (hb : ofSettings more = .ok b) :
    ofSettings (settings ++ more) = .ok ⟨b.root, b.mainConfig.or a.mainConfig,
      a.includePaths ++ b.includePaths, a.macros ++ b.macros,
      a.defaultIncludes ++ b.defaultIncludes, a.warnings ++ b.warnings⟩ := by
  rw [ofSettings_eq_ok_iff] at ha hb
  rw [ofSettings_eq, Draft.collected_append, ha, hb]
  rfl

end Config

/-- A document is read by the settings of its nodes. -/
theorem Config.parseWith_eq {read : String → Option (List Document.Node)} {text : String}
    {nodes : List Document.Node} (hread : read text = some nodes) :
    parseWith read text = ofSettings (nodes.map Setting.ofNode) := by
  rw [parseWith, hread]

/-- Some setting of the name has a text if some node of the name has a positional one. -/
theorem isSome_lastText?_ofNode_iff (nodes : List Document.Node) (name : String) :
    (lastText? (nodes.map Setting.ofNode) name).isSome = true ↔
      ∃ n ∈ nodes, n.name = name ∧ ∃ s, .argument (.text s) ∈ n.entries := by
  have hsome : ∀ n : Document.Node, n.texts ≠ [] ↔ ∃ s, s ∈ n.texts :=
    fun n => ⟨List.exists_mem_of_ne_nil n.texts, fun ⟨_, hs⟩ => List.ne_nil_of_mem hs⟩
  simp only [isSome_lastText?_iff, List.mem_map, exists_exists_and_eq_and, Setting.ofNode, hsome,
    Document.Node.mem_texts_iff]

/-- **Every setting is accounted for.** Take any reader that turns a text into nodes, and the
settings that these are, node by node. The settings are accepted exactly if some node `root` has a
positional text, and else the error is that the root is missing. The root and the main configuration
are then the first text of the last setting of that name that has one, the collecting settings have
all their texts in order, and there is one warning, in order, for each setting without a text and
for each with a text and an unknown name. Where the nodes of a text are those of two texts that are
accepted, one after the other, what both collect is kept, the root is that of the second and so is
the main configuration, if it has one. -/
theorem every_setting_accounted (read : String → Option (List Document.Node)) (text : String)
    (nodes : List Document.Node) (settings : List Setting) (hread : read text = some nodes)
    (hsettings : List.Forall₂ Document.Node.Sets nodes settings) :
    ((∃ c, Config.parseWith read text = .ok c) ↔
      ∃ n ∈ nodes, n.name = "root" ∧ ∃ s, .argument (.text s) ∈ n.entries) ∧
    (∀ e, Config.parseWith read text = .error e → e = .missingRoot) ∧
    (∀ c, Config.parseWith read text = .ok c →
      lastText? settings "root" = some c.root.text ∧
      lastText? settings "main-config" = c.mainConfig ∧
      (allTexts settings "include").map Path.mk = c.includePaths ∧
      allTexts settings "define" = c.macros ∧
      (allTexts settings "default-include").map Path.mk = c.defaultIncludes ∧
      settings.filterMap Setting.warning? = c.warnings) ∧
    (∀ later joined more a b, read later = some more → read joined = some (nodes ++ more) →
      Config.parseWith read text = .ok a → Config.parseWith read later = .ok b →
      Config.parseWith read joined = .ok ⟨b.root, b.mainConfig.or a.mainConfig,
        a.includePaths ++ b.includePaths, a.macros ++ b.macros,
        a.defaultIncludes ++ b.defaultIncludes, a.warnings ++ b.warnings⟩) := by
  obtain rfl := (forall₂_iff_eq_map Document.Node.sets_iff nodes settings).mp hsettings
  rw [Config.parseWith_eq hread]
  refine ⟨?_, ?_, ?_, ?_⟩
  · rw [← isSome_lastText?_ofNode_iff, Config.ofSettings_eq, Draft.complete, Draft.collected]
    cases lastText? (nodes.map Setting.ofNode) "root" with
    | none => simp
    | some root => simp
  · intro e he
    rw [Config.ofSettings_eq, Draft.complete_eq_error_iff] at he
    exact he.2
  · intro c hc
    rw [Config.ofSettings_eq_ok_iff, Draft.collected, Draft.mk.injEq] at hc
    obtain ⟨hroot, hrest⟩ := hc
    obtain ⟨root, htext, hpath⟩ := Option.map_eq_some_iff.mp hroot
    exact ⟨by rw [htext, ← hpath], hrest⟩
  · intro later joined more a b hlater hjoined ha hb
    rw [Config.parseWith_eq hlater] at hb
    rw [Config.parseWith_eq hjoined, List.map_append]
    exact Config.ofSettings_append ha hb

/-- A document in which texts stand among numbers, truth values and properties, and a later root
has none of its own. -/
def mixedDocument : String :=
  "root 1 \"/p\" at=\"/q\" \"/r\"\ndefine A #true \"B=1\"\nroot at=\"/s\"\nplatform telosb\n"

/-- The nodes of `mixedDocument`. -/
def mixedNodes : List Document.Node :=
  [⟨"root", [.argument (.number "1"), .argument (.text "/p"), .property "at" (.text "/q"),
      .argument (.text "/r")], []⟩,
    ⟨"define", [.argument (.text "A"), .argument (.boolean true), .argument (.text "B=1")], []⟩,
    ⟨"root", [.property "at" (.text "/s")], []⟩,
    ⟨"platform", [.argument (.text "telosb")], []⟩]

/-- What they set. -/
def mixedSettings : List Setting :=
  [⟨"root", ["/p", "/r"]⟩, ⟨"define", ["A", "B=1"]⟩, ⟨"root", []⟩, ⟨"platform", ["telosb"]⟩]

theorem parse_mixedDocument : Document.parse mixedDocument = some mixedNodes := by
  decide +kernel

theorem mixedNodes_sets : List.Forall₂ Document.Node.Sets mixedNodes mixedSettings :=
  (forall₂_iff_eq_map Document.Node.sets_iff _ _).mpr (by decide)

/-- The later node without a positional text takes nothing back. -/
theorem every_setting_accounted_mixed :
    Document.parse mixedDocument = some mixedNodes ∧
      List.Forall₂ Document.Node.Sets mixedNodes mixedSettings ∧
      ∃ c, Config.parse mixedDocument = .ok c ∧ c.root = ⟨"/p"⟩ ∧ c.macros = ["A", "B=1"] ∧
        c.warnings = [.empty "root", .unknown "platform"] := by
  obtain ⟨haccepted, -, hfields, -⟩ := every_setting_accounted Document.parse mixedDocument
    mixedNodes mixedSettings parse_mixedDocument mixedNodes_sets
  obtain ⟨c, hc⟩ := haccepted.mpr ⟨_, List.mem_cons_self, rfl, "/p", by decide⟩
  obtain ⟨hroot, -, -, hmacros, -, hwarnings⟩ := hfields c hc
  have htext : lastText? mixedSettings "root" = some "/p" := by decide
  refine ⟨parse_mixedDocument, mixedNodes_sets, c, hc, ?_, hmacros.symm, hwarnings.symm⟩
  exact congrArg Path.mk (Option.some.inj (htext.symm.trans hroot)).symm

end Settings

end EditorCore
