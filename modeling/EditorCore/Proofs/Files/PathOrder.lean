import EditorCore.Files.Path
import Mathlib.Data.List.Lex
import Mathlib.Data.List.Nodup
import Mathlib.Data.List.Pairwise
import Mathlib.Data.Prod.Lex
import Mathlib.Data.String.Basic

set_option autoImplicit false

/-! # The order of paths

Components are in a linear order: the root, the current directory and the parent directory come
first, in this order, and the names come after them in the order of their texts. The components of
a path are then ordered lexicographically, as lists are. The test `Path.le` decides this order
(`le_iff`), so it is transitive and total, and two paths that come before each other are spellings
of one path.

A list of paths in strict order has one spelling of each path. Another such list that has all its
members has no other spellings of them (`known_eq`).
-/

namespace EditorCore.Path

namespace Component

/-- The text of a name. The other components have none. -/
def text : Component → String
  | name s => s
  | _ => ""

/-- What the order of components looks at: the kind first, then the text. -/
def sortKey (c : Component) : Nat ×ₗ String := toLex (c.rank, c.text)

theorem sortKey_injective : Function.Injective sortKey := by
  intro a b h
  have hpair : (a.rank, a.text) = (b.rank, b.text) := toLex_inj.mp h
  cases a <;> cases b <;> simp [rank, text] at hpair
  · rfl
  · rfl
  · rfl
  · rw [hpair]

instance : LinearOrder Component := LinearOrder.lift' sortKey sortKey_injective

theorem le_iff_sortKey (a b : Component) : a ≤ b ↔ a.sortKey ≤ b.sortKey := Iff.rfl

theorem le_iff (a b : Component) : a.le b = true ↔ a ≤ b := by
  rw [le_iff_sortKey, sortKey, sortKey, Prod.Lex.toLex_le_toLex]
  cases a <;> cases b <;> simp [le, rank, text]

end Component

/-- The order of lists of components is the lexicographic one. -/
theorem leComponents_iff (as bs : List Component) : leComponents as bs = true ↔ as ≤ bs := by
  rw [← not_lt]
  induction as generalizing bs with
  | nil => simp [leComponents]
  | cons a as ih =>
      cases bs with
      | nil => simp [leComponents]
      | cons b bs =>
          rw [leComponents, List.cons_lt_cons_iff]
          by_cases hab : a = b
          · simp [hab, ih]
          · rw [if_neg hab, Component.le_iff, ← not_lt]
            simp [Ne.symm hab]

theorem le_iff (p q : Path) : p.le q = true ↔ p.components ≤ q.components :=
  leComponents_iff p.components q.components

theorem same_iff (p q : Path) : p.same q = true ↔ p.components = q.components := beq_iff_eq

/-- Sorted paths that are all different come one strictly before the other. -/
theorem pairwise_lt_mergeSort {paths : List Path}
    (h : paths.Pairwise fun p q => p.same q = false) :
    (paths.mergeSort le).Pairwise fun p q => p.components < q.components := by
  have hsorted : (paths.mergeSort le).Pairwise fun p q => p.le q = true := by
    apply List.pairwise_mergeSort
    · intro p q r hpq hqr
      rw [le_iff] at hpq hqr ⊢
      exact hpq.trans hqr
    · intro p q
      simpa [le_iff] using le_total p.components q.components
  have hdifferent : (paths.mergeSort le).Pairwise fun p q => p.components ≠ q.components := by
    have hpaths : paths.Pairwise fun p q => p.components ≠ q.components := by
      refine h.imp ?_
      intro p q hpq hsame
      rw [(same_iff p q).mpr hsame] at hpq
      cases hpq
    exact hpaths.perm (List.mergeSort_perm paths le).symm fun hpq => Ne.symm hpq
  refine (hsorted.and hdifferent).imp ?_
  rintro p q ⟨hle, hne⟩
  exact lt_of_le_of_ne ((le_iff p q).mp hle) hne

/-- A list in strict order has no path in two spellings. -/
theorem eq_of_same {paths : List Path}
    (h : paths.Pairwise fun p q => p.components < q.components) {p q : Path} (hp : p ∈ paths)
    (hq : q ∈ paths) (hsame : p.same q = true) : p = q := by
  by_contra hne
  have hsymm : Std.Symm fun p q : Path => p.components ≠ q.components := ⟨fun _ _ => Ne.symm⟩
  have hdifferent : paths.Pairwise fun p q => p.components ≠ q.components := h.imp ne_of_lt
  exact hdifferent.forall hp hq hne ((same_iff p q).mp hsame)

/-- Those of the paths that are spellings of a path in `before`. -/
def known (before paths : List Path) : List Path := paths.filter fun p => before.any (·.same p)

/-- A list in strict order that has all paths of another one, spelled in the same way, has them in
no further spelling. -/
theorem known_eq {before paths : List Path}
    (hbefore : before.Pairwise fun p q => p.components < q.components)
    (hpaths : paths.Pairwise fun p q => p.components < q.components)
    (hkept : ∀ p ∈ before, p ∈ paths) : known before paths = before := by
  have hknown : (known before paths).Pairwise fun p q => p.components < q.components :=
    hpaths.sublist List.filter_sublist
  have hnodup : ∀ {l : List Path}, l.Pairwise (fun p q => p.components < q.components) →
      l.Nodup := by
    intro l hl
    refine List.Pairwise.imp ?_ hl
    rintro p q hlt rfl
    exact lt_irrefl _ hlt
  have hmem : ∀ p, p ∈ known before paths ↔ p ∈ before := by
    intro p
    rw [known, List.mem_filter, List.any_eq_true]
    constructor
    · rintro ⟨hp, q, hq, hsame⟩
      rwa [← eq_of_same hpaths (hkept q hq) hp hsame]
    · intro hp
      exact ⟨hkept p hp, p, hp, (same_iff p p).mpr rfl⟩
  have hperm : (known before paths).Perm before :=
    (List.perm_ext_iff_of_nodup (hnodup hknown) (hnodup hbefore)).mpr hmem
  exact hperm.eq_of_pairwise (fun _ _ _ _ hlt hgt => absurd hgt (lt_asymm hlt)) hknown hbefore

end EditorCore.Path
