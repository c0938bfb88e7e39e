/-
Streaming a file: what the directory shows from opening to the end.

In memory a file is not seen before its output finishes: every step before that leaves the directory as it was, also one
that fails (`Output.Stays`), and only the last one puts the file (`Output.finish_cases`). On disk the file stands at its
place from opening on, at first empty, and `abort` takes it away, whatever stood there before. All other places are left
alone on both media. `Output.streaming` puts this together for any pieces.
-/
import ColumnStore.Proofs.Storage.Reachable

namespace ColumnStore.Storage

namespace Directory

variable {d e f : Directory} {path : String} {place : Place} {number : Nat}

/-! ## Nothing was changed -/

/-- nothing was changed but the count of opened sinks -/
def Untouched (d e : Directory) : Prop := e = { d with opened := e.opened }

theorem Untouched.refl (d : Directory) : d.Untouched d := rfl

theorem Untouched.trans (h : d.Untouched e) (h' : e.Untouched f) : d.Untouched f := by
  unfold Untouched at h h' ⊢
  rw [h', h]

theorem Untouched.medium (h : d.Untouched e) : e.medium = d.medium := by
  rw [h]

theorem Untouched.faults (h : d.Untouched e) : e.faults = d.faults := by
  rw [h]

theorem walkFrom_opened (count : Nat) (place : Place) (steps : List Component) :
    { d with opened := count }.walkFrom place steps = d.walkFrom place steps := by
  have hoccupant : ∀ p, { d with opened := count }.occupant p = d.occupant p := fun _ => rfl
  induction steps generalizing place with
  | nil => rfl
  | cons step steps ih =>
    rw [walkFrom, walkFrom, hoccupant]
    simp only [ih]

theorem locate_opened (count : Nat) (path : String) : { d with opened := count }.locate path = d.locate path := by
  have hsteps : { d with opened := count }.steps path = d.steps path := rfl
  unfold locate
  rw [hsteps]
  simp only [walkFrom_opened]
  rfl

/-- two directories that answer every question alike -/
structure Alike (d e : Directory) : Prop where
  contains : ∀ path, e.contains path = d.contains path
  read : ∀ path, e.read path = d.read path
  list : ∀ folder, e.list folder = d.list folder

/-- the count of opened sinks is not seen -/
theorem Untouched.alike (h : d.Untouched e) : Alike d e := by
  rw [h]
  refine ⟨fun path => ?_, fun path => ?_, fun folder => ?_⟩
  · simp only [contains, locate_opened]
    rfl
  · simp only [read, locate_opened]
    rfl
  · simp only [list, locate_opened]
    rfl

/-- only the file that a path leads to was changed -/
structure Apart (place : Place) (d e : Directory) : Prop where
  files : ∀ other, other ≠ place → e.fileAt? other = d.fileAt? other
  named : ∀ path f, d.named? path = some f → f.place ≠ place → e.named? path = some f

theorem Apart.trans (h : Apart place d e) (h' : Apart place e f) : Apart place d f where
  files other hne := (h'.files other hne).trans (h.files other hne)
  named path g hg hne := h'.named path g (h.named path g hg hne) hne

theorem Untouched.apart (h : d.Untouched e) (place : Place) : Apart place d e := by
  rw [h]
  refine ⟨fun _ _ => rfl, fun path g hg _ => ?_⟩
  simp only [named?, locate_opened] at hg ⊢
  exact hg

/-! ## One content was changed -/

/-- contents of the file of one number were changed at most, and nothing at all in memory -/
structure Rewrites (number : Nat) (d e : Directory) : Prop where
  content : ∃ content, e = d.withContent number content
  memory : d.medium = .memory → e = d

theorem withContent_content (d : Directory) (number : Nat) : d.withContent number File.content = d := by
  have hsame : File.update number File.content = id := by
    funext f
    rw [File.update, ite_self, id]
  have hfiles : (d.withContent number File.content).files = d.files := by
    rw [withContent_files, hsame, List.map_id]
  exact congrArg (fun files => { d with files := files }) hfiles

theorem withContent_withContent (d : Directory) (number : Nat) (first second : File → ByteArray) :
    (d.withContent number first).withContent number second =
      d.withContent number fun f => second { f with content := first f } := by
  have htwice : File.update number second ∘ File.update number first =
      File.update number fun f => second { f with content := first f } := by
    funext f
    by_cases hf : f.number = number
    · simp [File.update, hf]
    · simp [File.update, hf]
  have hfiles : ((d.withContent number first).withContent number second).files =
      (d.withContent number fun f => second { f with content := first f }).files := by
    rw [withContent_files, withContent_files, withContent_files, List.map_map, htwice]
  exact congrArg (fun files => { d with files := files }) hfiles

theorem Rewrites.refl (d : Directory) (number : Nat) : Rewrites number d d :=
  ⟨⟨File.content, (withContent_content d number).symm⟩, fun _ => rfl⟩

theorem Rewrites.medium (h : Rewrites number d e) : e.medium = d.medium := by
  obtain ⟨content, rfl⟩ := h.content
  rfl

theorem Rewrites.trans (h : Rewrites number d e) (h' : Rewrites number e f) : Rewrites number d f := by
  have hmedium := h.medium
  obtain ⟨first, hfirst⟩ := h.content
  obtain ⟨second, hsecond⟩ := h'.content
  refine ⟨⟨fun f => second { f with content := first f }, ?_⟩, fun hm => ?_⟩
  · rw [hsecond, hfirst, withContent_withContent]
  · exact (h'.memory (hmedium.trans hm)).trans (h.memory hm)

theorem Rewrites.tidy (h : Rewrites number d e) (hd : d.Tidy) : e.Tidy := by
  obtain ⟨content, rfl⟩ := h.content
  exact hd.withContent

/-- files of other places are not rewritten -/
theorem Rewrites.apart (h : Rewrites number d e) (hd : d.Tidy) {f : File} (hf : d.fileAt? place = some f)
    (hnumber : f.number = number) : Apart place d e := by
  obtain ⟨content, rfl⟩ := h.content
  obtain ⟨hmem, hplace⟩ := fileAt?_eq_some hf
  have hkeep : ∀ g ∈ d.files, g.place ≠ place → File.update number content g = g := by
    intro g hg hne
    refine if_neg fun heq => hne ?_
    rw [hd.eq_of_number hg hmem (heq.trans hnumber.symm), hplace]
  refine ⟨fun other hne => ?_, fun path g hg hne => ?_⟩
  · rw [fileAt?_withContent]
    cases hg : d.fileAt? other with
    | none => rfl
    | some g =>
      obtain ⟨hgmem, rfl⟩ := fileAt?_eq_some hg
      rw [Option.map_some, hkeep g hgmem hne]
  · obtain ⟨there, -, hat⟩ := named?_eq_some_iff.1 hg
    rw [named?_withContent, hg, Option.map_some, hkeep g (fileAt?_eq_some hat).1 hne]

theorem Rewrites.leads (h : Rewrites number d e) (hleads : d.Leads path place) : e.Leads path place := by
  obtain ⟨content, rfl⟩ := h.content
  exact hleads.mono rfl rfl (fun _ => id) (fun hdisk => (hleads.free hdisk).2)

/-! ## A file was taken away -/

theorem Leads.unique {other : Place} (h : d.Leads path place) (h' : d.Leads path other) : place = other := by
  unfold Leads at h h'
  cases hm : d.medium with
  | memory =>
    rw [hm] at h h'
    exact h.trans h'.symm
  | disk =>
    rw [hm] at h h'
    obtain ⟨steps, hsteps, hwalk, -⟩ := h
    obtain ⟨steps', hsteps', hwalk', -⟩ := h'
    obtain rfl : steps = steps' := by simpa [hsteps] using hsteps'
    simpa [hwalk] using hwalk'

/-- on disk a path that leads to a place names what stands there -/
theorem locate_of_leads (hdisk : d.medium = .disk) (h : d.Leads path place) :
    d.locate path = .ok (place, d.occupant place) := by
  rw [Leads, hdisk] at h
  obtain ⟨steps, hsteps, hwalk, hending, -⟩ := h
  simp [locate, hsteps, hwalk, hending, bind, Except.bind]

/-- a file that is taken away is not named any more, and the other ones stay -/
theorem remove_apart (hdisk : d.medium = .disk) (h : d.Leads path place) {f : File} (hf : d.fileAt? place = some f) :
    (d.remove path).2 = .ok () ∧ (d.remove path).1.contains path = .ok false ∧ Apart place d (d.remove path).1 := by
  obtain ⟨hname, hfree⟩ := h.free hdisk
  have hoccupant : d.occupant place = .file f := occupant_eq_file_iff.2 ⟨hname, hfree, hf⟩
  set e : Directory := { d with files := d.files.filter fun g => g.place ≠ place } with he
  have hremove : d.remove path = (e, .ok ()) := by
    rw [remove, locate_of_leads hdisk h, hoccupant]
  have hfiles : ∀ other, other ≠ place → e.fileAt? other = d.fileAt? other := by
    intro other hne
    rw [fileAt?, he, List.find?_filter]
    refine congrArg (fun p => d.files.find? p) (funext fun g => ?_)
    by_cases hg : g.place = other
    · simp [hg, hne]
    · simp [hg]
  have hgone : e.fileAt? place = none := by
    rw [fileAt?, he, List.find?_filter]
    simp
  have hleads : ∀ {p : String} {q : Place}, d.Leads p q → e.Leads p q := fun hpq =>
    hpq.mono rfl rfl (fun _ => id) (fun hdisk => (hpq.free hdisk).2)
  rw [hremove]
  refine ⟨rfl, ?_, hfiles, fun p g hg hne => ?_⟩
  · have hdisk' : e.medium = .disk := hdisk
    have hnothing : e.occupant place = .nothing := by
      have hfree' : e.folders.contains place = false := hfree
      simp [occupant, hname, hfree', hgone]
    rw [contains, hdisk', locate_of_leads hdisk' (hleads h), hnothing]
  · obtain ⟨there, hthere, hat⟩ := named?_eq_some_iff.1 hg
    obtain ⟨-, rfl⟩ := fileAt?_eq_some hat
    exact named?_eq_some_iff.2 ⟨g.place, hleads hthere, (hfiles _ hne).trans hat⟩

/-! ## A file was put -/

theorem put_memory (hm : d.medium = .memory) (path : String) (content : ByteArray) :
    d.put path content = (d.store (Path.components path) path content, .ok ()) := by
  rw [put, prepare, hm]

theorem store_apart (hd : d.Tidy) (place : Place) (name : String) (content : ByteArray) :
    Apart place d (d.store place name content) :=
  ⟨fun _ hne => fileAt?_store_of_ne hd hne, fun _ _ hg hne => named?_store_of_ne hd hg hne⟩

/-- a file that was put is read under its path, and no other place was changed -/
theorem put_apart {content : ByteArray} (hd : d.Tidy) (hput : d.put path content = (e, .ok ())) :
    ∃ place, e.Leads path place ∧ Apart place d e ∧ e.read path = .ok content := by
  obtain ⟨hext, htidy, hleads⟩ := prepare_spec hd path
  unfold put at hput
  generalize d.prepare path = prepared at hext htidy hleads hput
  obtain ⟨d₁, result⟩ := prepared
  cases result with
  | error fault => simp at hput
  | ok place =>
    obtain rfl : d₁.store place path content = e := by simpa using hput
    have hleads := hleads place rfl
    have hstored := store_apart htidy place path content
    have hleads' : (d₁.store place path content).Leads path place :=
      hleads.mono (by simp) (by simp) (by simp) (fun hdisk => by simpa using (hleads.free hdisk).2)
    obtain ⟨f, hat, -, rfl⟩ := fileAt?_store_same d₁ place path content
    refine ⟨place, hleads', ⟨?_, ?_⟩, read_of_named (named?_eq_some_iff.2 ⟨place, hleads', hat⟩)⟩
    · intro other hne
      rw [hstored.files other hne, hext.fileAt?]
    · intro other g hg hne
      exact hstored.named other g (hext.named? htidy hg) hne

theorem Apart.read {other : String} {content : ByteArray} (h : Apart place d e)
    (hne : ∀ there, d.Leads other there → there ≠ place) (hread : d.read other = .ok content) :
    e.read other = .ok content := by
  obtain ⟨f, hf, rfl⟩ := named_of_read hread
  obtain ⟨there, hleads, hat⟩ := named?_eq_some_iff.1 hf
  obtain ⟨-, rfl⟩ := fileAt?_eq_some hat
  exact read_of_named (h.named other f hf (hne _ hleads))

/-- in memory the file of another path is read as before -/
theorem read_store_of_ne (hd : d.Tidy) (hm : d.medium = .memory) {other : String} {place : Place} {name : String}
    {content : ByteArray} (hne : Path.components other ≠ place) :
    (d.store place name content).read other = d.read other := by
  simp only [read, store_medium, hm, fileAt?_store_of_ne hd hne]

/-- a file was put, and nothing else was changed -/
def Gained (d : Directory) (path : String) (content : ByteArray) (e : Directory) : Prop :=
  (d.put path content).1.Untouched e

/-- sinks that were opened before do not change what it is to put a file -/
theorem Untouched.gained {content : ByteArray} (h : d.Untouched e) (hm : d.medium = .memory)
    (hgained : e.Gained path content f) : d.Gained path content f := by
  have hm' : e.medium = .memory := h.medium.trans hm
  rw [Gained, put_memory hm'] at hgained
  rw [Gained, put_memory hm]
  refine Untouched.trans ?_ hgained
  have hat : e.fileAt? (Path.components path) = d.fileAt? (Path.components path) := by
    rw [h]
    rfl
  unfold store
  rw [hat]
  cases d.fileAt? (Path.components path) with
  | some g =>
    rw [h]
    exact rfl
  | none =>
    rw [h]
    exact rfl

theorem openSink_untouched (hm : d.medium = .memory) (path : String) : d.Untouched (d.openSink path).1 := by
  obtain ⟨medium, top, files, made, folders, faults, opened⟩ := d
  obtain rfl : medium = .memory := hm
  unfold openSink
  dsimp only
  split
  · exact rfl
  · exact rfl

end Directory

namespace Sink

open Directory

/-! ## Sinks -/

theorem rewrites_settle {d : Directory} (hdisk : d.medium = .disk) (s : Sink) :
    Rewrites s.number d (settle d s).1 := by
  have hmemory : d.medium = .memory → (settle d s).1 = d := by
    intro hm
    rw [hm] at hdisk
    simp at hdisk
  refine ⟨?_, hmemory⟩
  unfold settle patch
  dsimp only
  split
  · exact (Rewrites.refl d s.number).content
  · exact ⟨_, rfl⟩

theorem accept_stays (d : Directory) (s : Sink) (bs : Bytes) :
    Rewrites s.number d (accept d s bs).1 ∧ Same s (accept d s bs).2 := by
  unfold accept
  cases hm : d.medium with
  | memory => exact ⟨Rewrites.refl d _, rfl, rfl⟩
  | disk =>
    have hfirst : ∀ make : Bool, Rewrites s.number d (if make then settle d s else (d, s)).1 ∧
        Same s (if make then settle d s else (d, s)).2 := by
      intro make
      cases make
      · exact ⟨Rewrites.refl d _, rfl, rfl⟩
      · exact ⟨rewrites_settle hm s, rfl, rfl⟩
    obtain ⟨hrewrites, hpath, hnumber⟩ :=
      hfirst (decide (bufferCapacity - (s.accepted.size - s.flushed) < bs.length))
    simp only [decide_eq_true_eq] at hrewrites hpath hnumber
    dsimp only
    generalize (if bufferCapacity - (s.accepted.size - s.flushed) < bs.length then settle d s else (d, s)) = moved
      at hrewrites hpath hnumber
    obtain ⟨e, t⟩ := moved
    dsimp only at hrewrites hpath hnumber ⊢
    split
    · have hlast := rewrites_settle (hrewrites.medium.trans hm) (t.append bs)
      have hsame : (t.append bs).number = s.number := hnumber
      rw [hsame] at hlast
      exact ⟨hrewrites.trans hlast, hpath, hnumber⟩
    · exact ⟨hrewrites, hpath, hnumber⟩

theorem flush_stays (d : Directory) (s : Sink) : Rewrites s.number d (s.flush d).1 ∧ Same s (s.flush d).2.1 := by
  unfold flush
  split
  · exact ⟨Rewrites.refl d _, rfl, rfl⟩
  · split
    · exact ⟨Rewrites.refl d _, rfl, rfl⟩
    · next hdisk => exact ⟨rewrites_settle hdisk s, rfl, rfl⟩

theorem finish_rewrites {d : Directory} (hdisk : d.medium = .disk) (s : Sink) : Rewrites s.number d (s.finish d).1 := by
  unfold finish
  rw [hdisk]
  split <;> first | contradiction | exact rewrites_settle hdisk s

/-- on disk the file of a sink stands where its path leads -/
theorem Backed.file {d : Directory} {s : Sink} {place : Place} (h : Backed d s) (hdisk : d.medium = .disk)
    (hleads : d.Leads s.path place) :
    ∃ f, d.fileAt? place = some f ∧ f.number = s.number ∧ f.content = s.accepted.extract 0 s.flushed := by
  obtain ⟨-, f, hnamed, hnumber, hcontent⟩ := h hdisk
  obtain ⟨there, hthere, hat⟩ := named?_eq_some_iff.1 hnamed
  exact ⟨f, hleads.unique hthere ▸ hat, hnumber, hcontent⟩

theorem abort_memory {d : Directory} (hm : d.medium = .memory) (s : Sink) : (s.abort d).1 = d := by
  unfold abort discard
  split <;> rw [hm]

end Sink

namespace Output

open Directory

/-! ## Outputs -/

/-- whatever came of a step, the output stands behind its file, and no other file was changed -/
structure Stays (d d' : Directory) (o o' : Output) : Prop where
  rewrites : Rewrites o.sink.number d d'
  name : o'.name = o.name
  path : o'.sink.path = o.sink.path
  number : o'.sink.number = o.sink.number

theorem Stays.refl (d : Directory) (o : Output) : Stays d d o o := ⟨Rewrites.refl d _, rfl, rfl, rfl⟩

theorem Stays.trans {d e f : Directory} {o p q : Output} (h : Stays d e o p) (h' : Stays e f p q) : Stays d f o q where
  rewrites := h.rewrites.trans (h.number ▸ h'.rewrites)
  name := h'.name.trans h.name
  path := h'.path.trans h.path
  number := h'.number.trans h.number

theorem stays_of_call {d e : Directory} {o p : Output} {bs : Bytes} {offered : Nat} {reply : Reply}
    (h : o.call d bs offered = (e, p, reply)) : Stays d e o p := by
  rw [call_eq] at h
  cases h
  obtain ⟨hrewrites, hsame⟩ := Sink.accept_stays d o.answered.sink (bs.take (o.sink.reply offered).taken)
  exact ⟨hrewrites, rfl, hsame.path, hsame.number⟩

theorem offer_stays (d : Directory) (o : Output) (bs : Bytes) (left : Nat) :
    Stays d (o.offer d bs left).1 o (o.offer d bs left).2.1 := by
  fun_induction Output.offer d o bs left with
  | case1 d o left => exact Stays.refl d o
  | case2 d o bs left _ e p hcall ih => exact (stays_of_call hcall).trans ih
  | case3 d o bs left _ e p fault hcall => exact stays_of_call hcall
  | case4 d o bs left _ e p hcall => exact stays_of_call hcall
  | case5 d o bs left _ e p count hcall _ ih => exact (stays_of_call hcall).trans ih

theorem writeAll_stays (d : Directory) (o : Output) (bs : Bytes) :
    Stays d (o.writeAll d bs).1 o (o.writeAll d bs).2.1 := offer_stays d o bs bs.length

/-- **Writing reaches one file at most**, also when it fails. -/
theorem writePieces_stays (d : Directory) (o : Output) (pieces : List Bytes) :
    Stays d (o.writePieces d pieces).1 o (o.writePieces d pieces).2.1 := by
  induction pieces generalizing d o with
  | nil => exact Stays.refl d o
  | cons piece pieces ih =>
    have hfirst := writeAll_stays d o piece
    rw [writePieces]
    generalize o.writeAll d piece = written at hfirst
    obtain ⟨e, p, result⟩ := written
    cases result with
    | error fault => exact hfirst
    | ok _ => exact hfirst.trans (ih e p)

/-- an output in memory publishes all that it has taken, or nothing -/
theorem finish_cases {d : Directory} (hm : d.medium = .memory) (o : Output) :
    (∃ fault, o.finish d = (d, .error fault)) ∨ o.finish d = d.put o.sink.path o.sink.accepted := by
  unfold finish Sink.flush
  cases hflush : o.sink.faults.flush with
  | some fault => exact .inl ⟨fault, rfl⟩
  | none =>
    simp only [hm, Sink.finish]
    cases hfinish : o.sink.faults.finish with
    | some fault => exact .inl ⟨fault, rfl⟩
    | none => exact .inr rfl

theorem finish_rewrites {d : Directory} (hdisk : d.medium = .disk) (o : Output) :
    Rewrites o.sink.number d (o.finish d).1 := by
  obtain ⟨hflush, -, hnumber⟩ := Sink.flush_stays d o.sink
  unfold finish
  generalize o.sink.flush d = flushed at hflush hnumber
  obtain ⟨e, t, result⟩ := flushed
  cases result with
  | error fault => exact hflush
  | ok _ =>
    have hfinish := Sink.finish_rewrites (hflush.medium.trans hdisk) t
    rw [hnumber] at hfinish
    exact hflush.trans hfinish

/-- an output in memory that finishes puts its file, and leaves the other ones -/
theorem finish_apart_memory {d : Directory} {o : Output} (hd : d.Tidy) (hm : d.medium = .memory)
    (hfinish : (o.finish d).2 = .ok ()) : Apart (Path.components o.sink.path) d (o.finish d).1 := by
  rcases finish_cases hm o with ⟨fault, hfault⟩ | hput
  · rw [hfault] at hfinish
    simp at hfinish
  · rw [hput, put_memory hm]
    exact store_apart hd _ _ _

theorem abort_faultless_memory {d : Directory} {o : Output} (hm : d.medium = .memory) (hf : o.Faultless) :
    o.abort d = (d, .ok ()) := by
  have hfaults : o.sink.faults = {} := hf
  simp [abort, Sink.abort, Sink.discard, hfaults, hm]

theorem abort_faultless_disk {d : Directory} {o : Output} (hdisk : d.medium = .disk) (hf : o.Faultless) :
    o.abort d = d.remove o.sink.path := by
  have hfaults : o.sink.faults = {} := hf
  simp [abort, Sink.abort, Sink.discard, hfaults, hdisk]

theorem read_finish {d : Directory} {o : Output} {done : Bytes} (hd : d.Tidy) (hb : Sink.Backed d o.sink)
    (hw : o.Wrote done) (hfinish : (o.finish d).2 = .ok ()) :
    (o.finish d).1.read o.sink.path = .ok (Bytes.toByteArray done) := by
  obtain ⟨-, -, ⟨f, hnamed, hcontent, -⟩, -⟩ := finish_spec hd hb hw (Prod.ext rfl hfinish : o.finish d = (_, .ok ()))
  have hbytes : f.content = Bytes.toByteArray done := Bytes.ofArray_inj (by rw [hcontent, Bytes.ofArray_toByteArray])
  rw [read_of_named hnamed, hbytes]

/-- on disk the file of an output shows the first of what it has taken -/
theorem read_shown {d : Directory} {o : Output} {done : Bytes} (hdisk : d.medium = .disk) (hb : Sink.Backed d o.sink)
    (hw : o.Wrote done) : ∃ shown, shown <+: done ∧ d.read o.sink.path = .ok (Bytes.toByteArray shown) := by
  obtain ⟨-, f, hnamed, -, hcontent⟩ := hb hdisk
  refine ⟨done.take o.sink.flushed, List.take_prefix _ _, ?_⟩
  have hshown : f.content = Bytes.toByteArray (done.take o.sink.flushed) := by
    refine Bytes.ofArray_inj ?_
    rw [hcontent, Bytes.ofArray_toByteArray, Bytes.ofArray_extract, hw.accepted, List.drop_zero]
  rw [read_of_named hnamed, hshown]

/-- **What a stream shows.** An output that was opened takes any pieces, and finishes with just them in its file. In
memory nothing is seen before that, and nothing after `abort`. On disk its file shows the first of them from opening on,
and is gone after `abort`, also if there was a file before. All other places stay as they were. -/
theorem streaming {d d₁ : Directory} {path : String} {o : Output} (hd : d.Reachable) (hf : d.faults = {})
    (hopen : create d path = (d₁, .ok o)) (pieces : List Bytes) :
    ∃ e p place, o.writePieces d₁ pieces = (e, p, .ok ()) ∧ e.Leads path place ∧
      ((p.finish e).2 = .ok () ∧ (p.finish e).1.read path = .ok (Bytes.toByteArray pieces.flatten) ∧
        Apart place d (p.finish e).1) ∧
      (p.abort e).2 = .ok () ∧
      (d.medium = .memory → Alike d e ∧ Alike d (p.abort e).1) ∧
      (d.medium = .disk → Apart place d e ∧
        (∃ shown, shown <+: pieces.flatten ∧ e.read path = .ok (Bytes.toByteArray shown)) ∧
        Apart place d (p.abort e).1 ∧ (p.abort e).1.contains path = .ok false) := by
  unfold create at hopen
  split at hopen
  · next d₁ sink hsink =>
    obtain ⟨rfl, rfl⟩ : d₁ = _ ∧ ({ name := path, sink } : Output) = o := by simpa using hopen
    obtain ⟨htidy, hmedium, -, hpath, haccepted, hbacked, ⟨k, hfaults⟩, place, hleads, hfiles, hnamed⟩ :=
      Sink.openSink_spec hd.tidy hsink
    have hfaultless : Output.Faultless { name := path, sink } := by rw [Faultless, hfaults, hf]
    have hempty : Output.Wrote { name := path, sink } [] := ⟨by rw [haccepted]; rfl, rfl, rfl⟩
    -- the pieces are written behind the path, and nowhere else
    obtain ⟨e, p, hwrite, hp, hsame⟩ := writePieces_faultless d₁ hfaultless pieces
    have hstays := writePieces_stays d₁ { name := path, sink } pieces
    rw [hwrite] at hstays
    obtain ⟨hkeeps, hwrote⟩ := writePieces_spec htidy hbacked hempty hwrite
    rw [List.nil_append] at hwrote
    have hpPath : p.sink.path = path := hstays.path.trans hpath
    have hleads' : e.Leads path place := hstays.rewrites.leads hleads
    have hmedium' : e.medium = d.medium := hstays.rewrites.medium.trans hmedium
    have hfinish := finish_faultless e hp
    have hread := read_finish hkeeps.frame.tidy hkeeps.backed hwrote hfinish
    rw [hpPath] at hread
    cases hm : d.medium with
    | memory =>
      have huntouched : d.Untouched e := by
        have := openSink_untouched hm path
        rw [hsink] at this
        rwa [hsame (hmedium.trans hm)]
      have hplace : place = Path.components p.sink.path := by
        rw [Leads, hmedium', hm] at hleads'
        rw [hleads', hpPath]
      have hfinished := finish_apart_memory hkeeps.frame.tidy (hmedium'.trans hm) hfinish
      rw [← hplace] at hfinished
      have habort := abort_faultless_memory (hmedium'.trans hm) hp
      refine ⟨e, p, place, hwrite, hleads', ⟨hfinish, hread, (huntouched.apart place).trans hfinished⟩, ?_, ?_, ?_⟩
      · rw [habort]
      · intro _
        rw [habort]
        exact ⟨huntouched.alike, huntouched.alike⟩
      · intro hdisk
        simp at hdisk
    | disk =>
      have hdisk' := hmedium'.trans hm
      have hopened : Apart place d d₁ := ⟨hfiles, fun other f hf hne => (hnamed hm other f hf hne).1⟩
      obtain ⟨f₁, hat₁, hnumber₁, -⟩ := hbacked.file (hmedium.trans hm) (hpath ▸ hleads)
      obtain ⟨f, hat, hnumber, -⟩ := hkeeps.backed.file hdisk' (hpPath ▸ hleads')
      have hwritten : Apart place d e := hopened.trans (hstays.rewrites.apart htidy hat₁ hnumber₁)
      obtain ⟨hremoved, hgone, hrest⟩ := remove_apart hdisk' hleads' hat
      have habort := abort_faultless_disk hdisk' hp
      rw [hpPath] at habort
      refine ⟨e, p, place, hwrite, hleads', ⟨hfinish, hread, ?_⟩, ?_, ?_, ?_⟩
      · exact hwritten.trans ((finish_rewrites hdisk' p).apart hkeeps.frame.tidy hat hnumber)
      · rw [habort, hremoved]
      · intro hmemory
        simp at hmemory
      · intro _
        rw [habort]
        have hshown := read_shown hdisk' hkeeps.backed hwrote
        rw [hpPath] at hshown
        exact ⟨hwritten, hshown, hwritten.trans hrest, hgone⟩
  · simp at hopen

/-- on disk a stream that is thrown away takes a file with it that was there before -/
theorem streaming_over_file : ∃ d d₁ e : Directory, ∃ o p : Output, d.Reachable ∧ d.faults = {} ∧
    d.read "a" = .ok (Bytes.toByteArray [1]) ∧ create d "a" = (d₁, .ok o) ∧ o.writePieces d₁ [[2]] = (e, p, .ok ()) ∧
      (p.finish e).1.read "a" = .ok (Bytes.toByteArray [2]) ∧ (p.abort e).1.contains "a" = .ok false := by
  set d : Directory := (({ medium := .disk } : Directory).put "a" (Bytes.toByteArray [1])).1 with hd
  have hreachable : d.Reachable := (Reachable.empty .disk 0 {}).step (.put "a" _)
  have hread : d.read "a" = .ok (Bytes.toByteArray [1]) := by rfl
  obtain ⟨d₁, o, hopen⟩ : ∃ d₁ o, create d "a" = (d₁, .ok o) := ⟨_, _, rfl⟩
  obtain ⟨e, p, place, hwrite, -, ⟨-, hfinish, -⟩, -, -, hdisk⟩ := streaming hreachable rfl hopen [[2]]
  obtain ⟨-, -, -, hgone⟩ := hdisk rfl
  exact ⟨d, d₁, e, o, p, hreachable, rfl, hread, hopen, hwrite, hfinish, hgone⟩

end Output

end ColumnStore.Storage
