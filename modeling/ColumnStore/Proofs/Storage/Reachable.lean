/-
Every directory that can come about is tidy.

A directory starts out empty, with any medium and any faults (`Reachable`). From then on it changes step by step: a
file is put, a sink is opened, bytes are written into a file, a file is removed (`Step`). Each step keeps it tidy
(`Step.tidy`), so all of them together do (`Reachable.tidy`).
-/
import ColumnStore.Proofs.Storage.Output

namespace ColumnStore.Storage.Directory

variable {d d' : Directory}

/-! ## Steps -/

theorem put_spec (h : d.Tidy) (path : String) (content : ByteArray) :
    (d.put path content).1.Tidy ∧ (d.put path content).1.medium = d.medium := by
  obtain ⟨hextends, htidy, hleads⟩ := prepare_spec h path
  unfold Directory.put
  generalize d.prepare path = prepared at hextends htidy hleads
  obtain ⟨e, result⟩ := prepared
  cases result with
  | error fault => exact ⟨htidy, hextends.medium⟩
  | ok place => exact ⟨htidy.store (hleads place rfl).free, store_medium.trans hextends.medium⟩

theorem openSink_spec (h : d.Tidy) (path : String) :
    (d.openSink path).1.Tidy ∧ (d.openSink path).1.medium = d.medium := by
  have hcounted : Tidy { d with opened := d.opened + 1 } := ⟨h.places, h.numbers, h.below, h.apart⟩
  obtain ⟨hextends, htidy, hleads⟩ := prepare_spec hcounted path
  unfold Directory.openSink
  dsimp only
  split
  · exact ⟨hcounted, rfl⟩
  · generalize Directory.prepare { d with opened := d.opened + 1 } path = prepared at hextends htidy hleads
    obtain ⟨e, result⟩ := prepared
    cases result with
    | error fault => exact ⟨htidy, hextends.medium⟩
    | ok place =>
      dsimp only
      cases hm : e.medium with
      | memory => exact ⟨htidy, hextends.medium⟩
      | disk => exact ⟨htidy.store (hleads place rfl).free, store_medium.trans hextends.medium⟩

theorem remove_spec (h : d.Tidy) (path : String) : (d.remove path).1.Tidy ∧ (d.remove path).1.medium = d.medium := by
  unfold Directory.remove
  split
  · next place f _ =>
    have hsub : (d.files.filter fun f => f.place ≠ place).Sublist d.files := List.filter_sublist
    exact ⟨⟨(hsub.map _).nodup h.places, (hsub.map _).nodup h.numbers, fun f hf => h.below f (hsub.subset hf),
      fun hm f hf => h.apart hm f (hsub.subset hf)⟩, rfl⟩
  · exact ⟨h, rfl⟩
  · exact ⟨h, rfl⟩
  · exact ⟨h, rfl⟩

/-- a change of a directory -/
inductive Step (d : Directory) : Directory → Prop where
  | put (path : String) (content : ByteArray) : Step d (d.put path content).1
  | openSink (path : String) : Step d (d.openSink path).1
  | patch (number offset : Nat) (bytes : ByteArray) : Step d (d.patch number offset bytes)
  | remove (path : String) : Step d (d.remove path).1

theorem Step.spec (h : d.Step d') (hd : d.Tidy) : d'.Tidy ∧ d'.medium = d.medium := by
  cases h with
  | put path content => exact put_spec hd path content
  | openSink path => exact openSink_spec hd path
  | patch number offset bytes =>
    obtain ⟨htidy, hmedium, -⟩ := Sink.named?_patch hd number offset bytes ""
    exact ⟨htidy, hmedium⟩
  | remove path => exact remove_spec hd path

theorem Step.tidy (h : d.Step d') (hd : d.Tidy) : d'.Tidy := (h.spec hd).1

theorem Step.medium (h : d.Step d') (hd : d.Tidy) : d'.medium = d.medium := (h.spec hd).2

/-! ## Runs -/

/-- directories that come about -/
inductive Reachable : Directory → Prop where
  | empty (medium : Medium) (top : Nat) (faults : Faults) : Reachable { medium, top, faults }
  | step {d d' : Directory} (before : Reachable d) (h : d.Step d') : Reachable d'

/-- **Reachable directories are tidy.** -/
theorem Reachable.tidy (h : d.Reachable) : d.Tidy := by
  induction h with
  | empty medium top faults => exact ⟨List.nodup_nil, List.nodup_nil, by simp, by simp⟩
  | step before h ih => exact h.tidy ih

theorem reachable_empty : Reachable {} := .empty .memory 0 {}

end ColumnStore.Storage.Directory
