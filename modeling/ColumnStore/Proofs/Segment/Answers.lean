/-
When a column is refused.

A call that adds a column answers as the plan of the column does, as long as no fault strikes the writer, and what that has
to be is told by the column alone. After a refusal nothing that follows lets the writer publish. Main result:
`additions_answered`.
-/
import ColumnStore.Proofs.Column.Answers
import ColumnStore.Proofs.Segment.Publication

namespace ColumnStore

open Storage Column

/-! ## Writers -/

namespace SegmentWriter

variable {s : Segment} {naming : Naming} {d : Directory} {w : SegmentWriter}

namespace Addition

def field : Addition → FieldNumber
  | column field _ _ | merged field _ _ => field

def name : Addition → String
  | column _ name _ | merged _ name _ => name

/-- the column that a call adds; that of a merge is the live entries of all its parts -/
def values : Addition → Values
  | column _ _ values => values
  | merged _ _ parts => .ints (merge parts)

theorem run_eq_add (addition : Addition) (d : Directory) (w : SegmentWriter) :
    addition.run d w = w.add d addition.field addition.name addition.values := by
  cases addition <;> rfl

end Addition

/-- calls leave a writer without faults as it is for the next one -/
theorem Faultless.addEach (h : w.Faultless) (additions : List Addition) :
    (w.addEach d additions).2.1.Faultless ∧ (w.addEach d additions).2.1.documents = w.documents := by
  induction additions generalizing d w with
  | nil => exact ⟨h, rfl⟩
  | cons addition additions ih =>
    obtain ⟨-, hfaultless, hdocuments⟩ := add_answer d h addition.field addition.name addition.values
    rw [← addition.run_eq_add] at hfaultless hdocuments
    obtain ⟨hrest, hsame⟩ := @ih (addition.run d w).1 _ hfaultless
    exact ⟨hrest, hsame.trans hdocuments⟩

/-- nothing is found in a directory of which nothing was seen since it was empty -/
theorem contains_of_untouched (h : Directory.Untouched {} d) (file : String) : d.contains file = .ok false := by
  rw [h]
  rfl

/-- **When a column is refused.** Take a new directory in memory and a writer in it. After any calls, a call that adds a
column answers the first null if there is one, else a wrong number of entries, else a layout. If it answered an error,
whatever calls come next, closing the writer answers that it was thrown away, and no file is there. -/
theorem additions_answered (s : Segment) (naming : Naming) (hnaming : naming.validate = .ok ())
    (hsuffix : Framing.isName s.suffix = true) :
    ∃ d w, create {} s naming = (d, .ok w) ∧
      ∀ (before : List Addition) (addition : Addition), addition.values.length < 2 ^ 32 →
        let ran := w.addEach d before
        let added := addition.run ran.1 ran.2.1
        addition.values.Answered addition.name s.documents added.2.2 ∧
          ∀ e, added.2.2 = .error e → ∀ after : List Addition,
            let last := added.2.1.addEach added.1 after
            (last.2.1.close last.1).2 = .error (.discarded (s.metadataFile naming) (s.dataFile naming)) ∧
              ∀ file, (last.2.1.close last.1).1.contains file = .ok false := by
  have hm : Directory.medium {} = .memory := rfl
  obtain ⟨d, w, hcreate, hready⟩ := create_memory hm rfl hnaming hsuffix
  obtain ⟨-, -, -, hopen⟩ := create_spec Directory.reachable_empty.tidy hcreate
  have hpending : Pending s naming d w := create_pending Directory.reachable_empty.tidy hm hcreate
  have huntouched : Directory.Untouched {} d := by
    have hopened := create_untouched hm s naming
    rwa [hcreate] at hopened
  refine ⟨d, w, hcreate, ?_⟩
  intro before addition hlen
  obtain ⟨hsame, hran, -⟩ := hpending.addEach before
  obtain ⟨hfaultless, hdocuments⟩ := @Faultless.addEach d w hready.faultless before
  dsimp only
  generalize w.addEach d before = ran at hsame hran hfaultless hdocuments ⊢
  obtain ⟨e, v, answers⟩ := ran
  obtain rfl : e = d := hsame
  dsimp only at hran hfaultless hdocuments ⊢
  refine ⟨?_, ?_⟩
  · have hanswer := (add_answer e hfaultless addition.field addition.name addition.values).1
    rw [addition.run_eq_add, hanswer, hdocuments, hopen.documents]
    exact plan_answered _ _ _ _ _ hlen
  · intro fault hfault after
    obtain ⟨hadded, hpending', hfailed⟩ := hran.run addition
    obtain ⟨hlast, hpending'', hstays⟩ := hpending'.addEach after
    have hclose := hpending''.close_failed (hstays (.inl (hfailed (.inr ⟨fault, hfault⟩))))
    rw [hadded, hlast, hclose]
    exact ⟨rfl, contains_of_untouched huntouched⟩

/-- two nulls in a column that is too long: the first of them is told, and a later good column saves nothing -/
theorem additions_answered_null_first : ∃ (s : Segment) (d : Directory) (w : SegmentWriter),
    create {} s {} = (d, .ok w) ∧
      let added := w.add d 0 "t" (.sorted [some [0x61], none, none])
      let last := added.2.1.addEach added.1 [.merged 1 "n" [⟨[none, some 5], some [false]⟩]]
      added.2.2 = .error (.nullValue "t" 1) ∧
        (last.2.1.close last.1).2 = .error (.discarded (s.metadataFile {}) (s.dataFile {})) ∧
        (last.2.1.close last.1).1.contains (s.dataFile {}) = .ok false := by
  obtain ⟨d, w, hcreate, hanswers⟩ := additions_answered ⟨⟨7⟩, 1, "a"⟩ {} rfl rfl
  obtain ⟨hanswered, hclosed⟩ := hanswers [] (.column 0 "t" (.sorted [some [0x61], none, none])) (by decide)
  have hnull := hanswered.null 1 rfl
  obtain ⟨hdiscarded, hnothing⟩ := hclosed _ hnull [.merged 1 "n" [⟨[none, some 5], some [false]⟩]]
  exact ⟨⟨⟨7⟩, 1, "a"⟩, d, w, hcreate, hnull, hdiscarded, hnothing _⟩

end SegmentWriter

end ColumnStore
