import EditorCore.Proofs.Cursor.Pieces
import Mathlib.Data.Nat.Find

set_option autoImplicit false

/-! # The loop of the scan

A scan is a loop: the machine stands at an offset, looks at the character before it, makes a move,
and goes back one character if the move reads it. Here the loop is told turn by turn, and what it
finds is what `scan` gives (`run_eq_append_reverse`).

Two facts about a single move carry everything. A move that reads nothing brings the state nearer to
its end (`step_progress`), so the offset and the state together make a measure that every turn
lowers. And a move keeps account of the characters: those it holds afterwards and those of the
piece it completes are the ones held before and the one it reads (`step_conserves`), so the machine
never claims text behind the cursor.
-/

namespace EditorCore.Cursor

/-! ## The account of a move -/

/-- The run in the middle of which the machine is, and how far it has counted. -/
def State.counting : State → Option (Kind × Nat)
  | .word n => some (.word, n)
  | .blank n => some (.blank, n)
  | .initial | .minus | .greater | .terminal => none

/-- The number of characters that the machine has read and not yet put into a piece. -/
def State.held : State → Nat
  | .word n | .blank n => n
  | .minus | .greater => 1
  | .initial | .terminal => 0

/-- The length of the piece that a move completes. -/
def Move.completed (m : Move) : Nat := m.found.elim 0 Prod.snd

theorem start_conserves (c : Char) :
    (start c).next.held + (start c).completed = (start c).consumes.toNat := by
  unfold start
  repeat' split
  all_goals rfl

/-- A move neither loses a character nor counts one twice. -/
theorem step_conserves (s : State) (c : Option Char) :
    (step s c).next.held + (step s c).completed = s.held + (step s c).consumes.toNat := by
  cases s with
  | initial =>
      cases c with
      | none => rfl
      | some c => simpa [State.held, step] using start_conserves c
  | word n | blank n =>
      cases c with
      | none => exact Nat.zero_add n
      | some c =>
          simp only [step]
          split
          · rfl
          · exact Nat.zero_add n
  | minus | greater =>
      cases c with
      | none => rfl
      | some c =>
          simp only [step]
          split <;> rfl
  | terminal => rfl

/-- Only by reading a character does the machine come to count: the first of a run from the initial
state, any further one in the run itself. -/
theorem step_counting {s : State} {c : Option Char} {kind : Kind} {n : Nat}
    (h : (step s c).next.counting = some (kind, n)) :
    (step s c).consumes = true ∧
      (s = .initial ∧ n = 1 ∨ ∃ m, s.counting = some (kind, m) ∧ n = m + 1) := by
  cases s with
  | initial =>
      cases c with
      | none => cases h
      | some c =>
          simp only [step] at h ⊢
          unfold start at h ⊢
          repeat' split at h
          all_goals cases h
          all_goals simp_all [Move.read]
  | word m | blank m =>
      cases c with
      | none => cases h
      | some c =>
          simp only [step] at h ⊢
          split at h
          · rename_i hc
            cases h
            exact ⟨by simp [hc, Move.read], .inr ⟨m, rfl, rfl⟩⟩
          · cases h
  | minus | greater =>
      cases c with
      | none => cases h
      | some c =>
          simp only [step] at h
          split at h <;> cases h
  | terminal => cases h

/-! ## The machine in a buffer -/

/-- The machine in a buffer: its state, and the offset at which it stands. -/
structure Machine where
  state : State
  position : Nat
deriving DecidableEq, Repr

namespace Machine

/-- The character before the machine; there is none at the start of the buffer. -/
def sees (buffer : List Char) (m : Machine) : Option Char :=
  match m.position with
  | 0 => none
  | i + 1 => buffer[i]?

/-- The move that the machine makes where it stands. -/
def move (buffer : List Char) (m : Machine) : Move := step m.state (m.sees buffer)

/-- The machine after its move. -/
def next (buffer : List Char) (m : Machine) : Machine where
  state := (m.move buffer).next
  position := if (m.move buffer).consumes then m.position - 1 else m.position

/-- The piece that the move completes. It starts where the machine then stands. -/
def piece? (buffer : List Char) (m : Machine) : Option Piece :=
  (m.move buffer).found.map fun (kind, length) =>
    .cut buffer kind (m.next buffer).position length

/-- The machine after some turns of the loop that starts at a cursor. -/
def after (buffer : List Char) (offset : Nat) : Nat → Machine
  | 0 => ⟨.initial, offset⟩
  | k + 1 => (after buffer offset k).next buffer

/-- The number of characters read from one turn up to another, which is not included. -/
def consumed (buffer : List Char) (offset first stop : Nat) : Nat :=
  (List.range' first (stop - first)).countP fun k => ((after buffer offset k).move buffer).consumes

variable {buffer : List Char} {m : Machine}

/-- A character is read only where there is one. -/
theorem position_pos_of_consumes (h : (m.move buffer).consumes = true) : 0 < m.position := by
  apply Nat.pos_of_ne_zero
  intro hzero
  have hsees : m.sees buffer = none := by rw [sees, hzero]
  rw [move, hsees, step_none_consumes] at h
  cases h

/-- The machine goes back by what it reads. -/
theorem next_position_add (buffer : List Char) (m : Machine) :
    (m.next buffer).position + (m.move buffer).consumes.toNat = m.position := by
  unfold next
  cases hconsumes : (m.move buffer).consumes with
  | true => exact Nat.sub_add_cancel (position_pos_of_consumes hconsumes)
  | false => rfl

/-- A turn that is not the last leaves less to do. -/
theorem measure_next_lt (buffer : List Char) (h : m.state ≠ .terminal) :
    3 * (m.next buffer).position + (m.next buffer).state.rank <
      3 * m.position + m.state.rank := by
  have hposition := next_position_add buffer m
  have hrank := State.rank_le_two (m.next buffer).state
  rcases step_progress m.state (m.sees buffer) h with hreads | hnearer
  · have hone : (m.move buffer).consumes.toNat = 1 := congrArg Bool.toNat hreads
    omega
  · have hnearer : (m.next buffer).state.rank < m.state.rank := hnearer
    omega

/-- What lies before the machine and what it holds is the text that is in no piece yet. A move
takes the piece that it completes from the end of that text. -/
theorem next_reach (buffer : List Char) (m : Machine) :
    (m.next buffer).position + (m.next buffer).state.held + (m.move buffer).completed =
      m.position + m.state.held := by
  have hposition := next_position_add buffer m
  have haccount : (m.next buffer).state.held + (m.move buffer).completed =
      m.state.held + (m.move buffer).consumes.toNat := step_conserves m.state (m.sees buffer)
  omega

theorem sees_eq_head? (hle : m.position ≤ buffer.length) :
    m.sees buffer = (buffer.take m.position).reverse.head? := by
  unfold sees
  cases hposition : m.position with
  | zero => simp
  | succ i =>
      have hi : i < buffer.length := by omega
      simp [List.getLast?_take, List.getElem?_eq_getElem hi]

theorem rest_move (hle : m.position ≤ buffer.length) :
    (m.move buffer).rest (buffer.take m.position).reverse =
      (buffer.take (m.next buffer).position).reverse := by
  unfold next Move.rest
  cases (m.move buffer).consumes with
  | true =>
      have hlength : (buffer.take m.position).length = m.position := List.length_take_of_le hle
      simp only [if_true]
      rw [List.tail_reverse, List.dropLast_eq_take, hlength, List.take_take,
        Nat.min_eq_left (Nat.sub_le _ _)]
  | false => rfl

/-- Of what the machine finds from where it stands, the piece of its next move comes last. -/
theorem run_eq_append (hle : m.position ≤ buffer.length) (h : m.state ≠ .terminal) :
    run buffer m.state (buffer.take m.position).reverse =
      run buffer (m.next buffer).state (buffer.take (m.next buffer).position).reverse ++
        (m.piece? buffer).toList := by
  have hlength : (buffer.take (m.next buffer).position).length = (m.next buffer).position := by
    have hposition := next_position_add buffer m
    exact List.length_take_of_le (by omega)
  rw [run, if_neg h]
  dsimp only
  rw [← sees_eq_head? hle, show step m.state (m.sees buffer) = m.move buffer from rfl,
    rest_move hle, List.length_reverse, hlength]
  unfold piece?
  cases (m.move buffer).found with
  | none => rfl
  | some found => rfl

/-! ## Turn after turn -/

section Loop

variable (buffer) (offset : Nat)

/-- The machine never goes beyond the cursor, nor does what it holds. -/
theorem after_reach_le (k : Nat) :
    (after buffer offset k).position + (after buffer offset k).state.held ≤ offset := by
  induction k with
  | zero => exact Nat.le_refl offset
  | succ k ih =>
      have hreach := next_reach buffer (after buffer offset k)
      show ((after buffer offset k).next buffer).position +
        ((after buffer offset k).next buffer).state.held ≤ offset
      omega

/-- As long as the loop goes on, every turn uses up some of the measure that it starts with. -/
theorem turns_add_measure_le {k : Nat}
    (h : ∀ i < k, (after buffer offset i).state ≠ .terminal) :
    k + 3 * (after buffer offset k).position + (after buffer offset k).state.rank ≤
      3 * offset + 1 := by
  induction k with
  | zero =>
      show 0 + 3 * offset + 1 ≤ 3 * offset + 1
      omega
  | succ k ih =>
      have hbefore := ih fun i hi => h i (Nat.lt_succ_of_lt hi)
      have hturn := measure_next_lt buffer (h k (Nat.lt_succ_self k))
      show k + 1 + 3 * ((after buffer offset k).next buffer).position +
        ((after buffer offset k).next buffer).state.rank ≤ 3 * offset + 1
      omega

/-- The loop ends: the machine halts, and it does so within three turns for each character. -/
theorem exists_first_terminal :
    ∃ turns ≤ 3 * offset + 1, (after buffer offset turns).state = .terminal ∧
      ∀ k < turns, (after buffer offset k).state ≠ .terminal := by
  have hhalts : ∃ k, (after buffer offset k).state = .terminal := by
    -- Otherwise the loop would go on for longer than the measure at its start allows.
    by_contra hcon
    have hall : ∀ i < 3 * offset + 2, (after buffer offset i).state ≠ .terminal :=
      fun i _ hi => hcon ⟨i, hi⟩
    have hbound := turns_add_measure_le buffer offset hall
    omega
  have hfirst : ∀ k < Nat.find hhalts, (after buffer offset k).state ≠ .terminal :=
    fun k hk => Nat.find_min hhalts hk
  refine ⟨Nat.find hhalts, ?_, Nat.find_spec hhalts, hfirst⟩
  have hbound := turns_add_measure_le buffer offset hfirst
  omega

theorem consumed_succ {j k : Nat} (h : j ≤ k) :
    consumed buffer offset j (k + 1) =
      consumed buffer offset j k + ((after buffer offset k).move buffer).consumes.toNat := by
  unfold consumed
  rw [Nat.succ_sub h, List.range'_1_concat, List.countP_append, Nat.add_sub_cancel' h,
    List.countP_singleton]
  cases ((after buffer offset k).move buffer).consumes <;> rfl

/-- A run that is being counted began when the machine was last in the initial state, and its count
is the number of characters read since then. -/
theorem exists_run_start {k : Nat} {kind : Kind} {n : Nat}
    (h : (after buffer offset k).state.counting = some (kind, n)) :
    ∃ j < k, (after buffer offset j).state = .initial ∧
      (∀ i, j < i → i ≤ k → ∃ n', (after buffer offset i).state.counting = some (kind, n')) ∧
      n = consumed buffer offset j k := by
  -- The last turn has either begun the run or continued it, and it has read one character.
  induction k generalizing n with
  | zero => cases h
  | succ k ih =>
      obtain ⟨hreads, hbegins | ⟨n', hcounting, rfl⟩⟩ := step_counting h
      · obtain ⟨hinitial, rfl⟩ := hbegins
        refine ⟨k, Nat.lt_succ_self k, hinitial, ?_, ?_⟩
        · intro i hlow hhigh
          obtain rfl : i = k + 1 := by omega
          exact ⟨1, h⟩
        · rw [consumed_succ buffer offset (Nat.le_refl k), consumed, Nat.sub_self]
          exact congrArg (0 + Bool.toNat ·) hreads.symm
      · obtain ⟨j, hj, hinitial, hwithin, rfl⟩ := ih hcounting
        refine ⟨j, Nat.lt_succ_of_lt hj, hinitial, ?_, ?_⟩
        · intro i hlow hhigh
          rcases Nat.lt_or_eq_of_le hhigh with hlt | rfl
          · exact hwithin i hlow (Nat.le_of_lt_succ hlt)
          · exact ⟨_, h⟩
        · rw [consumed_succ buffer offset (Nat.le_of_lt hj)]
          exact congrArg (_ + Bool.toNat ·) hreads.symm

/-- A piece that a move completes ends at the cursor or before it. -/
theorem next_position_add_le {k : Nat} {kind : Kind} {length : Nat}
    (h : ((after buffer offset k).move buffer).found = some (kind, length)) :
    ((after buffer offset k).next buffer).position + length ≤ offset := by
  have hcompleted : ((after buffer offset k).move buffer).completed = length := by
    rw [Move.completed, h]
    rfl
  have hreach := next_reach buffer (after buffer offset k)
  have hle := after_reach_le buffer offset k
  omega

/-- The pieces that the loop has found in some turns stand behind those it is still to find, the
latest one first. -/
theorem run_eq_append_reverse (hle : offset ≤ buffer.length) {turns : Nat}
    (h : ∀ k < turns, (after buffer offset k).state ≠ .terminal) :
    run buffer .initial (buffer.take offset).reverse =
      run buffer (after buffer offset turns).state
          (buffer.take (after buffer offset turns).position).reverse ++
        ((List.range turns).filterMap fun k => (after buffer offset k).piece? buffer).reverse := by
  induction turns with
  | zero => exact (List.append_nil _).symm
  | succ turns ih =>
      have hposition : (after buffer offset turns).position ≤ buffer.length := by
        have hreach := after_reach_le buffer offset turns
        omega
      rw [ih fun k hk => h k (Nat.lt_succ_of_lt hk),
        run_eq_append hposition (h turns (Nat.lt_succ_self turns)), List.range_succ,
        List.filterMap_append, List.reverse_append, List.append_assoc]
      congr 2
      cases hpiece : (after buffer offset turns).piece? buffer <;> simp [hpiece]

end Loop

end Machine

/-- **The loop of the scan ends and stays in bounds.** From a cursor in the buffer, the machine
halts after finitely many turns, and the scan is what it has found by then, the latest piece first.
In each turn a character is read only if the machine is not at the start of the buffer; the length
that the state of a word or a blank carries is the number of characters read since the run began,
which was in the initial state; and a piece that is completed lies between the start of the buffer
and the cursor. -/
theorem scan_loop_ends_in_bounds {buffer : List Char} {offset : Nat}
    (hle : offset ≤ buffer.length) :
    ∃ turns ≤ 3 * offset + 1,
      (Machine.after buffer offset turns).state = .terminal ∧
      scan buffer offset = ((List.range turns).filterMap fun k =>
        (Machine.after buffer offset k).piece? buffer).reverse ∧
      ∀ k < turns,
        let machine := Machine.after buffer offset k
        machine.state ≠ .terminal ∧
        ((machine.move buffer).consumes = true → 0 < machine.position) ∧
        (∀ kind n, machine.state.counting = some (kind, n) →
          ∃ j < k, (Machine.after buffer offset j).state = .initial ∧
            (∀ i, j < i → i ≤ k →
              ∃ n', (Machine.after buffer offset i).state.counting = some (kind, n')) ∧
            n = Machine.consumed buffer offset j k) ∧
        ∀ kind length, (machine.move buffer).found = some (kind, length) →
          (machine.next buffer).position + length ≤ offset := by
  obtain ⟨turns, hbound, hterminal, hgoing⟩ := Machine.exists_first_terminal buffer offset
  refine ⟨turns, hbound, hterminal, ?_, ?_⟩
  · rw [scan, if_neg (Nat.not_lt.mpr hle), Machine.run_eq_append_reverse buffer offset hle hgoing,
      hterminal, run_terminal, List.nil_append]
  · intro k hk machine
    exact ⟨hgoing k hk, Machine.position_pos_of_consumes,
      fun _ _ => Machine.exists_run_start buffer offset,
      fun _ _ => Machine.next_position_add_le buffer offset⟩

/-- After eight of the nine turns the machine has counted both characters of the word, behind which
it has passed a blank, an arrow and another blank. -/
theorem scan_loop_ends_in_bounds_arrow :
    6 ≤ ['a', 'b', ' ', '-', '>', ' '].length ∧
      (Machine.after ['a', 'b', ' ', '-', '>', ' '] 6 8).state = .word 2 ∧
      ∃ j < 8, (Machine.after ['a', 'b', ' ', '-', '>', ' '] 6 j).state = .initial ∧
        Machine.consumed ['a', 'b', ' ', '-', '>', ' '] 6 j 8 = 2 := by
  have hle : 6 ≤ ['a', 'b', ' ', '-', '>', ' '].length := by decide
  have hword : (Machine.after ['a', 'b', ' ', '-', '>', ' '] 6 8).state = .word 2 := by decide
  have hgoing : ∀ k < 9, (Machine.after ['a', 'b', ' ', '-', '>', ' '] 6 k).state ≠ .terminal := by
    decide
  obtain ⟨turns, -, hterminal, -, hturns⟩ := scan_loop_ends_in_bounds hle
  have hlong : 8 < turns := by
    apply Nat.lt_of_not_le
    intro hshort
    exact hgoing turns (Nat.lt_succ_of_le hshort) hterminal
  obtain ⟨j, hj, hinitial, -, hcount⟩ := (hturns 8 hlong).2.2.1 .word 2 (by rw [hword]; rfl)
  exact ⟨hle, hword, j, hj, hinitial, hcount.symm⟩

end EditorCore.Cursor
