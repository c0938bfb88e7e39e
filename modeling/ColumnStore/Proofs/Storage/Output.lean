/-
Outputs: what is written is what is published.

`Output.Wrote o bs` says that the sink has taken the bytes `bs`, no more and no less, and that count and register speak
of them. `Sink.Backed d s` says that on disk the path of a sink names its file, which holds what was flushed. Writing
keeps both, whatever short answers and interruptions the sink gives, and leaves the files of other numbers alone
(`Frame`):
- `writeAll_spec`, `writePieces_spec`: a write that succeeds adds exactly its bytes;
- `finish_spec`: a sink that finishes leaves its bytes under its path;
- `writeAll_faultless`, `writePieces_faultless`, `finish_faultless`: without faults every step succeeds, and in memory a
  write changes nothing that can be seen (`writePieces_memory`).
-/
import ColumnStore.Proofs.Bytes.Values
import ColumnStore.Proofs.Storage.Directory
import ColumnStore.Storage.Output

namespace ColumnStore.Storage

/-! ## What a step leaves alone -/

/-- a step that changed contents of the file of one number at most -/
structure Frame (number : Nat) (d d' : Directory) : Prop where
  tidy : d'.Tidy
  medium : d'.medium = d.medium
  faults : d'.faults = d.faults
  memory : d.medium = .memory → d' = d
  others : ∀ path f, d.named? path = some f → f.number ≠ number → d'.named? path = some f

theorem Frame.refl {d : Directory} (h : d.Tidy) (number : Nat) : Frame number d d :=
  ⟨h, rfl, rfl, fun _ => rfl, fun _ _ hf _ => hf⟩

theorem Frame.trans {number : Nat} {d e f : Directory} (h : Frame number d e) (h' : Frame number e f) :
    Frame number d f where
  tidy := h'.tidy
  medium := h'.medium.trans h.medium
  faults := h'.faults.trans h.faults
  memory hm := (h'.memory (h.medium.trans hm)).trans (h.memory hm)
  others path g hg hn := h'.others path g (h.others path g hg hn) hn

namespace Sink

/-! ## Sinks -/

/-- on disk the path of a sink names its file, which holds what was flushed -/
def Backed (d : Directory) (s : Sink) : Prop :=
  d.medium = .disk → s.flushed ≤ s.accepted.size ∧
    ∃ f, d.named? s.path = some f ∧ f.number = s.number ∧ f.content = s.accepted.extract 0 s.flushed

/-- the bytes behind a prefix, written behind it, complete it -/
theorem overwrite_extract (a : ByteArray) {n : Nat} (hn : n ≤ a.size) :
    Directory.overwrite (a.extract 0 n) n (a.extract n a.size) = a := by
  have hsize : (a.extract 0 n).size = n := by rw [ByteArray.size_extract]; omega
  have hlen : (Bytes.ofArray a).length = a.size := rfl
  have hfront : Bytes.ofArray (a.extract 0 n) = (Bytes.ofArray a).take n := by simp [Bytes.ofArray_extract]
  have hback : Bytes.ofArray (a.extract n a.size) = (Bytes.ofArray a).drop n := by
    rw [Bytes.ofArray_extract, List.take_of_length_le (by omega)]
  have htake : Bytes.ofArray ((a.extract 0 n).extract 0 n) = (Bytes.ofArray a).take n := by
    rw [Bytes.ofArray_extract, hfront, List.drop_zero, List.take_take, Nat.min_self]
  have hnone : Bytes.ofArray ((a.extract 0 n).extract (n + (a.extract n a.size).size) n) = [] := by
    rw [Bytes.ofArray_extract]
    exact List.drop_eq_nil_of_le (le_trans (List.length_take_le _ _) (Nat.le_add_right _ _))
  have hgap : n - ((a.extract 0 n).extract 0 n).size = 0 := by
    rw [← Bytes.length_ofArray, htake, List.length_take]
    omega
  apply Bytes.ofArray_inj
  rw [Directory.overwrite, hsize, hgap, Bytes.ofArray_append, Bytes.ofArray_append, Bytes.ofArray_append, htake, hback,
    hnone, List.append_nil]
  exact (congrArg (· ++ _) (List.append_nil _)).trans (List.take_append_drop n _)

/-- what `patch` does to the file of its number, and to the others -/
theorem named?_patch {d : Directory} (hd : d.Tidy) (number offset : Nat) (bytes : ByteArray) (path : String) :
    (d.patch number offset bytes).Tidy ∧ (d.patch number offset bytes).medium = d.medium ∧
      (d.patch number offset bytes).faults = d.faults ∧
      (d.patch number offset bytes).named? path =
        if bytes.isEmpty then d.named? path
        else (d.named? path).map (File.update number fun f => Directory.overwrite f.content offset bytes) := by
  unfold Directory.patch
  split
  · exact ⟨hd, rfl, rfl, rfl⟩
  · exact ⟨hd.withContent, rfl, rfl, Directory.named?_withContent path⟩

theorem settle_spec {d : Directory} {s : Sink} (hd : d.Tidy) (hdisk : d.medium = .disk) (h : Backed d s) :
    Frame s.number d (settle d s).1 ∧ Backed (settle d s).1 (settle d s).2 := by
  obtain ⟨hflushed, f, hnamed, hnumber, hcontent⟩ := h hdisk
  set bytes := s.accepted.extract s.flushed s.accepted.size
  refine ⟨⟨?_, ?_, ?_, ?_, ?_⟩, ?_⟩
  · exact (named?_patch hd s.number s.flushed bytes "").1
  · exact (named?_patch hd s.number s.flushed bytes "").2.1
  · exact (named?_patch hd s.number s.flushed bytes "").2.2.1
  · intro hm
    rw [hm] at hdisk
    simp at hdisk
  · intro path g hg hne
    have hpatch := (named?_patch hd s.number s.flushed bytes path).2.2.2
    change (d.patch s.number s.flushed bytes).named? path = some g
    rw [hpatch, hg]
    split
    · rfl
    · rw [Option.map_some, File.update, if_neg hne]
  · intro _
    refine ⟨le_refl _, ?_⟩
    have hpatch := (named?_patch hd s.number s.flushed bytes s.path).2.2.2
    have hall : s.accepted.extract 0 s.accepted.size = s.accepted := ByteArray.extract_zero_size
    change ∃ g, (d.patch s.number s.flushed bytes).named? s.path = some g ∧ g.number = s.number ∧
      g.content = s.accepted.extract 0 s.accepted.size
    rw [hpatch, hnamed, hall]
    split
    · next hempty =>
      -- nothing was waiting, so the file is complete as it is
      have hsize : bytes.size = 0 := by simpa [ByteArray.isEmpty] using hempty
      have hdone : s.flushed = s.accepted.size := by
        rw [ByteArray.size_extract] at hsize
        omega
      exact ⟨f, rfl, hnumber, by rw [hcontent, hdone, hall]⟩
    · refine ⟨_, rfl, by rw [File.update_number, hnumber], ?_⟩
      rw [File.update, if_pos hnumber]
      dsimp only
      rw [hcontent, overwrite_extract _ hflushed]

/-- the bytes that were flushed stay the first ones when more are taken -/
theorem extract_append_of_le (a : ByteArray) (bs : Bytes) {n : Nat} (hn : n ≤ a.size) :
    (Bytes.appendTo a bs).extract 0 n = a.extract 0 n := by
  apply Bytes.ofArray_inj
  rw [Bytes.ofArray_extract, Bytes.ofArray_extract, Bytes.ofArray_appendTo, List.take_append_of_le_length]
  exact hn

theorem backed_append {d : Directory} {s : Sink} (h : Backed d s) (bs : Bytes) : Backed d (s.append bs) := by
  intro hdisk
  obtain ⟨hflushed, f, hnamed, hnumber, hcontent⟩ := h hdisk
  have hsize : s.accepted.size ≤ (Bytes.appendTo s.accepted bs).size := by
    rw [← Bytes.length_ofArray (Bytes.appendTo s.accepted bs), Bytes.ofArray_appendTo, List.length_append,
      Bytes.length_ofArray]
    omega
  refine ⟨le_trans hflushed hsize, f, hnamed, hnumber, ?_⟩
  rw [hcontent]
  exact (extract_append_of_le _ _ hflushed).symm

/-- what a sink keeps while it takes bytes -/
structure Same (s t : Sink) : Prop where
  path : t.path = s.path
  number : t.number = s.number

theorem accept_spec {d : Directory} {s : Sink} (hd : d.Tidy) (h : Backed d s) (bs : Bytes) :
    Frame s.number d (accept d s bs).1 ∧ Backed (accept d s bs).1 (accept d s bs).2 ∧
      (accept d s bs).2.accepted = Bytes.appendTo s.accepted bs ∧ Same s (accept d s bs).2 := by
  unfold accept
  cases hm : d.medium with
  | memory => exact ⟨Frame.refl hd _, backed_append h bs, rfl, rfl, rfl⟩
  | disk =>
    -- the buffer may be moved out before the bytes are taken, and again after it
    have hfirst : ∀ make : Bool, Frame s.number d (if make then settle d s else (d, s)).1 ∧
        Backed (if make then settle d s else (d, s)).1 (if make then settle d s else (d, s)).2 ∧
        (if make then settle d s else (d, s)).2.accepted = s.accepted ∧
        Same s (if make then settle d s else (d, s)).2 := by
      intro make
      cases make
      · exact ⟨Frame.refl hd _, h, rfl, rfl, rfl⟩
      · obtain ⟨hframe, hbacked⟩ := settle_spec hd hm h
        exact ⟨hframe, hbacked, rfl, rfl, rfl⟩
    obtain ⟨hframe, hbacked, haccepted, hpath, hnumber⟩ :=
      hfirst (decide (bufferCapacity - (s.accepted.size - s.flushed) < bs.length))
    simp only [decide_eq_true_eq] at hframe hbacked haccepted hpath hnumber
    dsimp only
    generalize (if bufferCapacity - (s.accepted.size - s.flushed) < bs.length then settle d s else (d, s)) = moved
      at hframe hbacked haccepted hpath hnumber
    obtain ⟨e, t⟩ := moved
    dsimp only at hframe hbacked haccepted hpath hnumber ⊢
    have happended : (t.append bs).accepted = Bytes.appendTo s.accepted bs := by rw [append, haccepted]
    split
    · obtain ⟨hlast, hlastBacked⟩ := settle_spec hframe.tidy (hframe.medium.trans hm) (backed_append hbacked bs)
      have hsame : (t.append bs).number = s.number := hnumber
      rw [hsame] at hlast
      exact ⟨hframe.trans hlast, hlastBacked, happended, hpath, hnumber⟩
    · exact ⟨hframe, backed_append hbacked bs, happended, hpath, hnumber⟩

theorem accept_nil (d : Directory) (s : Sink) : s.accept d [] = (d, s) := by
  have happend : s.append [] = s := by
    rw [append, show Bytes.appendTo s.accepted [] = s.accepted from
      Bytes.ofArray_inj (by rw [Bytes.ofArray_appendTo, List.append_nil])]
  unfold accept
  cases d.medium with
  | memory => rw [happend]
  | disk => simp [happend, bufferCapacity]

/-- flushing moves bytes into the file at most -/
theorem flush_spec {d e : Directory} {s t : Sink} (hd : d.Tidy) (h : Backed d s) (hflush : s.flush d = (e, t, .ok ())) :
    Frame s.number d e ∧ Backed e t ∧ t.accepted = s.accepted ∧ t.path = s.path ∧ t.number = s.number := by
  unfold flush at hflush
  cases hm : d.medium with
  | memory =>
    rw [hm] at hflush
    split at hflush
    · simp at hflush
    · obtain ⟨rfl, rfl, -⟩ : d = e ∧ s = t ∧ True := by simpa using hflush
      exact ⟨Frame.refl hd _, h, rfl, rfl, rfl⟩
  | disk =>
    rw [hm] at hflush
    split at hflush
    · simp at hflush
    · obtain ⟨rfl, rfl, -⟩ : (settle d s).1 = e ∧ (settle d s).2 = t ∧ True := by simpa using hflush
      obtain ⟨hframe, hbacked⟩ := settle_spec hd hm h
      exact ⟨hframe, hbacked, rfl, rfl, rfl⟩

/-- a sink that finishes leaves its bytes under its path, and other files as they were -/
theorem finish_spec {d d' : Directory} {s : Sink} (hd : d.Tidy) (h : Backed d s) (hfinish : s.finish d = (d', .ok ())) :
    d'.Tidy ∧ d'.medium = d.medium ∧
      (∃ f, d'.named? s.path = some f ∧ f.content = s.accepted ∧ (d.medium = .disk → f.number = s.number)) ∧
      ∀ path f, d.named? path = some f → (d.medium = .memory → f.place ≠ Path.components s.path) →
        (d.medium = .disk → f.number ≠ s.number) → d'.named? path = some f := by
  unfold finish at hfinish
  cases hm : d.medium with
  | memory =>
    rw [hm] at hfinish
    cases hfault : s.faults.finish with
    | some fault => simp [hfault] at hfinish
    | none =>
      have hput : d.put s.path s.accepted = (d.store (Path.components s.path) s.path s.accepted, .ok ()) := by
        rw [Directory.put, Directory.prepare, hm]
      rw [hfault] at hfinish
      dsimp only at hfinish
      rw [hput] at hfinish
      obtain rfl : d.store (Path.components s.path) s.path s.accepted = d' := (Prod.mk.inj hfinish).1
      have hmemory : (d.store (Path.components s.path) s.path s.accepted).medium = .memory := by simpa using hm
      refine ⟨hd.store (by simp [hm]), hmemory, ?_, ?_⟩
      · obtain ⟨f, hf, -, hcontent⟩ := Directory.fileAt?_store_same d (Path.components s.path) s.path s.accepted
        refine ⟨f, by rw [Directory.named?_memory hmemory, hf], hcontent, ?_⟩
        intro hdisk
        simp at hdisk
      · intro path f hf hplace _
        rw [Directory.named?_memory hm] at hf
        have hne : Path.components path ≠ Path.components s.path :=
          (Directory.fileAt?_eq_some hf).2 ▸ hplace rfl
        rw [Directory.named?_memory hmemory, Directory.fileAt?_store_of_ne hd hne, hf]
  | disk =>
    rw [hm] at hfinish
    cases hfault : s.faults.finish with
    | some fault => simp [hfault] at hfinish
    | none =>
      rw [hfault] at hfinish
      obtain rfl : (settle d s).1 = d' := (Prod.mk.inj hfinish).1
      obtain ⟨hframe, hbacked⟩ := settle_spec hd hm h
      obtain ⟨-, f, hnamed, hnumber, hcontent⟩ := hbacked (hframe.medium.trans hm)
      refine ⟨hframe.tidy, hframe.medium.trans hm, ⟨f, hnamed, ?_, fun _ => hnumber⟩,
        fun path f hf _ hn => hframe.others path f hf (hn rfl)⟩
      rw [hcontent]
      exact ByteArray.extract_zero_size

/-- a file at a place that gets another file keeps its own number to itself -/
theorem numberAt_ne {d : Directory} (hd : d.Tidy) {place : Place} {f : File} (hf : f ∈ d.files) (hne : f.place ≠ place) :
    f.number ≠ d.numberAt place := by
  unfold Directory.numberAt
  cases hg : d.fileAt? place with
  | none => exact Nat.ne_of_lt (hd.below f hf)
  | some g =>
    obtain ⟨hgmem, hgplace⟩ := Directory.fileAt?_eq_some hg
    intro heq
    exact hne (hd.eq_of_number hf hgmem heq ▸ hgplace)

/-- a sink that opens is empty; on disk its file is made, and other files stay as they were -/
theorem openSink_spec {d d' : Directory} {path : String} {s : Sink} (hd : d.Tidy)
    (hopen : d.openSink path = (d', .ok s)) :
    d'.Tidy ∧ d'.medium = d.medium ∧ d'.faults = d.faults ∧ s.path = path ∧ s.accepted = .empty ∧ Backed d' s ∧
      (∃ k, s.faults = d.faults.sink k path) ∧ (∃ place, d'.Leads path place ∧
        (∀ other, other ≠ place → d'.fileAt? other = d.fileAt? other) ∧ (d.medium = .disk → ∀ other f,
          d.named? other = some f → f.place ≠ place → d'.named? other = some f ∧ f.number ≠ s.number)) := by
  unfold Directory.openSink at hopen
  dsimp only at hopen
  split at hopen
  · simp at hopen
  · next hopening =>
    set counted : Directory := { d with opened := d.opened + 1 } with hcounted
    have hextCounted : Directory.Extends d counted := ⟨rfl, rfl, rfl, rfl, rfl, fun _ => id⟩
    have hcountedTidy : counted.Tidy := ⟨hd.places, hd.numbers, hd.below, hd.apart⟩
    obtain ⟨hext, htidy, hleads⟩ := Directory.prepare_spec hcountedTidy path
    have hext := hextCounted.trans hext
    generalize counted.prepare path = prepared at hopen hext htidy hleads
    obtain ⟨e, result⟩ := prepared
    cases result with
    | error fault => simp at hopen
    | ok place =>
      have hleads := hleads place rfl
      dsimp only at hopen hext htidy hleads
      have hmedium : e.medium = d.medium := hext.medium
      cases hm : d.medium with
      | memory =>
        rw [hmedium, hm] at hopen
        simp only [Prod.mk.injEq, Except.ok.injEq] at hopen
        obtain ⟨rfl, rfl⟩ := hopen
        refine ⟨htidy, hmedium.trans hm, hext.faults, rfl, rfl, ?_,
          ⟨_, by rw [← hext.faults]⟩, place, hleads, fun other _ => hext.fileAt? other, by simp⟩
        intro hdisk
        rw [hmedium, hm] at hdisk
        simp at hdisk
      | disk =>
        rw [hmedium, hm] at hopen
        simp only [Prod.mk.injEq, Except.ok.injEq] at hopen
        obtain ⟨rfl, rfl⟩ := hopen
        have hdisk : e.medium = .disk := hmedium.trans hm
        have hfree := hleads.free hdisk
        have hleads' : (e.store place path .empty).Leads path place :=
          hleads.mono (by simp) (by simp) (by simp) (fun _ => by simpa using hfree.2)
        obtain ⟨f, hat, hnumber, hcontent⟩ := Directory.fileAt?_store_same e place path .empty
        refine ⟨htidy.store (fun _ => hfree), by simpa using hdisk, by simpa using hext.faults, rfl, rfl, ?_,
          ⟨_, by rw [← hext.faults]⟩, place, hleads', ?_, ?_⟩
        · intro _
          refine ⟨le_refl _, f, Directory.named?_eq_some_iff.2 ⟨place, hleads', hat⟩, hnumber, ?_⟩
          rw [hcontent]
          rfl
        · intro other hne
          rw [Directory.fileAt?_store_of_ne htidy hne, hext.fileAt? other]
        · intro _ other g hg hne
          have hg' := hext.named? htidy hg
          obtain ⟨there, -, hatOther⟩ := Directory.named?_eq_some_iff.1 hg'
          exact ⟨Directory.named?_store_of_ne htidy hg' hne, numberAt_ne htidy (Directory.fileAt?_eq_some hatOther).1 hne⟩

end Sink

/-- bytes that a call took -/
def Reply.taken : Reply → Nat
  | .took count => count
  | .interrupted | .refused _ => 0

namespace Output

/-! ## Outputs -/

/-- the sink has taken these bytes, and the output counted and checked just them -/
structure Wrote (o : Output) (bs : Bytes) : Prop where
  accepted : Bytes.ofArray o.sink.accepted = bs
  register : o.register = Crc32.feedAll Crc32.initial bs
  written : o.written = bs.length

theorem Wrote.checksum {o : Output} {bs : Bytes} (h : o.Wrote bs) : o.checksum = Crc32.checksum bs := by
  rw [Output.checksum, h.register]
  rfl

/-- what writing keeps of an output -/
structure Keeps (d d' : Directory) (o o' : Output) : Prop where
  frame : Frame o.sink.number d d'
  backed : Sink.Backed d' o'.sink
  name : o'.name = o.name
  path : o'.sink.path = o.sink.path
  number : o'.sink.number = o.sink.number

theorem Keeps.refl {d : Directory} {o : Output} (hd : d.Tidy) (h : Sink.Backed d o.sink) : Keeps d d o o :=
  ⟨Frame.refl hd _, h, rfl, rfl, rfl⟩

theorem Keeps.trans {d e f : Directory} {o p q : Output} (h : Keeps d e o p) (h' : Keeps e f p q) : Keeps d f o q where
  frame := h.frame.trans (h.number ▸ h'.frame)
  backed := h'.backed
  name := h'.name.trans h.name
  path := h'.path.trans h.path
  number := h'.number.trans h.number

theorem accept_spec {d : Directory} {o : Output} {done : Bytes} (hd : d.Tidy) (h : Sink.Backed d o.sink)
    (hw : o.Wrote done) (bs : Bytes) :
    Keeps d (o.accept d bs).1 o (o.accept d bs).2 ∧ (o.accept d bs).2.Wrote (done ++ bs) := by
  obtain ⟨hframe, hbacked, haccepted, hsame⟩ := Sink.accept_spec hd h bs
  refine ⟨⟨hframe, hbacked, rfl, hsame.path, hsame.number⟩, ?_, ?_, ?_⟩
  · change Bytes.ofArray (o.sink.accept d bs).2.accepted = done ++ bs
    rw [haccepted, Bytes.ofArray_appendTo, hw.accepted]
  · change Crc32.feedAll o.register bs = _
    rw [hw.register, Crc32.feedAll_append]
  · change o.written + bs.length = _
    rw [hw.written, List.length_append]

/-- **One call.** The sink takes as many of the first bytes as it answers, which is none after an interruption or a fault,
and the output counts and checks these. -/
theorem call_eq (d : Directory) (o : Output) (bs : Bytes) (offered : Nat) :
    o.call d bs offered =
      ((o.answered.accept d (bs.take (o.sink.reply offered).taken)).1,
        (o.answered.accept d (bs.take (o.sink.reply offered).taken)).2, o.sink.reply offered) := by
  have hnothing : o.answered.accept d (bs.take 0) = (d, o.answered) := by
    rw [List.take_zero, accept, Sink.accept_nil]
    rfl
  unfold call
  cases o.sink.reply offered with
  | took count => rfl
  | interrupted => rw [Reply.taken, hnothing]
  | refused fault => rw [Reply.taken, hnothing]

theorem call_spec {d d' : Directory} {o o' : Output} {done bs : Bytes} {offered : Nat} {reply : Reply} (hd : d.Tidy)
    (h : Sink.Backed d o.sink) (hw : o.Wrote done) (hcall : o.call d bs offered = (d', o', reply)) :
    Keeps d d' o o' ∧ o'.Wrote (done ++ bs.take reply.taken) := by
  have hanswered : o.answered.Wrote done := ⟨hw.accepted, hw.register, hw.written⟩
  rw [call_eq] at hcall
  cases hcall
  obtain ⟨hkeeps, hwrote⟩ := accept_spec (o := o.answered) hd h hanswered (bs.take (o.sink.reply offered).taken)
  exact ⟨⟨hkeeps.frame, hkeeps.backed, hkeeps.name, hkeeps.path, hkeeps.number⟩, hwrote⟩

theorem offer_spec {d d' : Directory} {o o' : Output} {done bs : Bytes} {left : Nat} (hd : d.Tidy)
    (h : Sink.Backed d o.sink) (hw : o.Wrote done) (hoffer : o.offer d bs left = (d', o', .ok ())) :
    Keeps d d' o o' ∧ o'.Wrote (done ++ bs) := by
  fun_induction Output.offer d o bs left generalizing done with
  | case1 d o left =>
    obtain ⟨rfl, rfl, -⟩ : d = d' ∧ o = o' ∧ True := by simpa using hoffer
    exact ⟨Keeps.refl hd h, by rwa [List.append_nil]⟩
  | case2 d o bs left _ e p hcall ih =>
    obtain ⟨hfirst, hfirstWrote⟩ := call_spec hd h hw hcall
    rw [Reply.taken, List.take_zero, List.append_nil] at hfirstWrote
    obtain ⟨hrest, hrestWrote⟩ := ih hfirst.frame.tidy hfirst.backed hfirstWrote hoffer
    exact ⟨hfirst.trans hrest, hrestWrote⟩
  | case3 => simp at hoffer
  | case4 => simp at hoffer
  | case5 d o bs left _ e p count hcall _ ih =>
    obtain ⟨hfirst, hfirstWrote⟩ := call_spec hd h hw hcall
    obtain ⟨hrest, hrestWrote⟩ := ih hfirst.frame.tidy hfirst.backed hfirstWrote hoffer
    refine ⟨hfirst.trans hrest, ?_⟩
    rwa [Reply.taken, List.append_assoc, List.take_append_drop] at hrestWrote

/-- **A write that succeeds adds exactly its bytes**, whatever the sink answered on the way. -/
theorem writeAll_spec {d d' : Directory} {o o' : Output} {done bs : Bytes} (hd : d.Tidy) (h : Sink.Backed d o.sink)
    (hw : o.Wrote done) (hwrite : o.writeAll d bs = (d', o', .ok ())) :
    Keeps d d' o o' ∧ o'.Wrote (done ++ bs) := offer_spec hd h hw hwrite

theorem writePieces_spec {d d' : Directory} {o o' : Output} {done : Bytes} {pieces : List Bytes} (hd : d.Tidy)
    (h : Sink.Backed d o.sink) (hw : o.Wrote done) (hwrite : o.writePieces d pieces = (d', o', .ok ())) :
    Keeps d d' o o' ∧ o'.Wrote (done ++ pieces.flatten) := by
  induction pieces generalizing d o done with
  | nil =>
    obtain ⟨rfl, rfl, -⟩ : d = d' ∧ o = o' ∧ True := by simpa [writePieces] using hwrite
    exact ⟨Keeps.refl hd h, by simpa using hw⟩
  | cons piece pieces ih =>
    rw [writePieces] at hwrite
    split at hwrite
    · next e p hpiece =>
      obtain ⟨hfirst, hfirstWrote⟩ := writeAll_spec hd h hw hpiece
      obtain ⟨hrest, hrestWrote⟩ := ih hfirst.frame.tidy hfirst.backed hfirstWrote hwrite
      refine ⟨hfirst.trans hrest, ?_⟩
      rwa [List.append_assoc, ← List.flatten_cons] at hrestWrote
    · simp at hwrite

/-- an output that finishes leaves its bytes under its path, and other files as they were -/
theorem finish_spec {d d' : Directory} {o : Output} {done : Bytes} (hd : d.Tidy) (hb : Sink.Backed d o.sink)
    (hw : o.Wrote done) (hfinish : o.finish d = (d', .ok ())) :
    d'.Tidy ∧ d'.medium = d.medium ∧ (∃ f, d'.named? o.sink.path = some f ∧ Bytes.ofArray f.content = done ∧
        (d.medium = .disk → f.number = o.sink.number)) ∧
      ∀ path f, d.named? path = some f → (d.medium = .memory → f.place ≠ Path.components o.sink.path) →
        (d.medium = .disk → f.number ≠ o.sink.number) → d'.named? path = some f := by
  unfold finish at hfinish
  split at hfinish
  · next e t hflushed =>
    -- what finishes is what was written
    obtain ⟨hframe, hbacked, haccepted, hpath, hnumber⟩ := Sink.flush_spec hd hb hflushed
    obtain ⟨htidy, hmedium, ⟨f, hnamed, hcontent, hfile⟩, hothers⟩ := Sink.finish_spec hframe.tidy hbacked hfinish
    rw [hpath] at hnamed
    refine ⟨htidy, hmedium.trans hframe.medium, ⟨f, hnamed, ?_, ?_⟩, ?_⟩
    · rw [hcontent, haccepted, hw.accepted]
    · intro hdisk
      exact (hfile (hframe.medium.trans hdisk)).trans hnumber
    · intro path g hg hplace hne
      cases hm : d.medium with
      | memory =>
        have hsame := hframe.memory hm
        subst hsame
        refine hothers path g hg (hpath ▸ hplace) ?_
        intro hdisk
        rw [hm] at hdisk
        simp at hdisk
      | disk =>
        refine hothers path g (hframe.others path g hg (hne hm)) ?_ (fun _ => hnumber ▸ hne hm)
        intro hmemory
        rw [hframe.medium, hm] at hmemory
        simp at hmemory
  · simp at hfinish

/-! ## Without faults -/

/-- the sink of an output has no faults -/
def Faultless (o : Output) : Prop := o.sink.faults = {}

theorem writeAll_faultless (d : Directory) {o : Output} (hf : o.Faultless) (bs : Bytes) :
    ∃ e o', o.writeAll d bs = (e, o', .ok ()) ∧ o'.Faultless ∧ (d.medium = .memory → e = d) := by
  rw [writeAll, offer]
  by_cases hnil : bs = []
  · exact ⟨d, o, by simp [hnil], hf, fun _ => rfl⟩
  · have hpos : bs.length ≠ 0 := by simpa using hnil
    -- the first call takes all of it
    have hreply : o.sink.reply bs.length = .took bs.length := by
      rw [Sink.reply, hf]
      simp [SinkFaults.reply]
    have hcall : o.call d bs bs.length =
        ((o.answered.accept d bs).1, (o.answered.accept d bs).2, .took bs.length) := by
      rw [call_eq, hreply, Reply.taken, List.take_length]
    have hfaults : (o.answered.accept d bs).2.Faultless := by
      simp only [Faultless, accept, Sink.faults_accept, answered, Sink.answered]
      rw [hf]
      rfl
    refine ⟨(o.answered.accept d bs).1, (o.answered.accept d bs).2, ?_, hfaults, ?_⟩
    · rw [dif_neg hnil]
      split
      · next hanswer => rw [hcall] at hanswer; simp at hanswer
      · next hanswer => rw [hcall] at hanswer; simp at hanswer
      · next hanswer =>
        rw [hcall] at hanswer
        cases hanswer
        rw [dif_neg hpos, List.drop_length, Nat.sub_self, offer, dif_pos rfl]
    · intro hm
      simp [accept, Sink.accept, hm]

theorem writePieces_faultless (d : Directory) {o : Output} (hf : o.Faultless) (pieces : List Bytes) :
    ∃ e o', o.writePieces d pieces = (e, o', .ok ()) ∧ o'.Faultless ∧ (d.medium = .memory → e = d) := by
  induction pieces generalizing d o with
  | nil => exact ⟨d, o, rfl, hf, fun _ => rfl⟩
  | cons piece pieces ih =>
    obtain ⟨e, p, hpiece, hp, hfirst⟩ := writeAll_faultless d hf piece
    obtain ⟨f, q, hpieces, hq, hrest⟩ := ih e hp
    refine ⟨f, q, ?_, hq, ?_⟩
    · rw [writePieces, hpiece]
      exact hpieces
    · intro hm
      obtain rfl := hfirst hm
      exact hrest hm

theorem writePieces_memory {d : Directory} {o : Output} (hm : d.medium = .memory) (hf : o.Faultless)
    (pieces : List Bytes) : ∃ o', o.writePieces d pieces = (d, o', .ok ()) ∧ o'.Faultless := by
  obtain ⟨e, o', hwrite, hf', hsame⟩ := writePieces_faultless d hf pieces
  obtain rfl := hsame hm
  exact ⟨o', hwrite, hf'⟩

/-- in memory and without faults an output opens, and nothing is seen of it -/
theorem create_memory {d : Directory} (hm : d.medium = .memory) (hf : d.faults = {}) (path : String) :
    ∃ o, create d path = ({ d with opened := d.opened + 1 }, .ok o) ∧ o.Faultless ∧ o.Wrote [] ∧ o.sink.path = path := by
  obtain ⟨medium, top, files, made, folders, faults, opened⟩ := d
  obtain rfl : medium = .memory := hm
  obtain rfl : faults = {} := hf
  exact ⟨_, rfl, rfl, ⟨rfl, rfl, rfl⟩, rfl⟩

theorem finish_faultless (d : Directory) {o : Output} (hf : o.Faultless) : (o.finish d).2 = .ok () := by
  have hfaults : o.sink.faults = {} := hf
  cases hm : d.medium with
  | memory => simp [finish, Sink.flush, Sink.finish, hfaults, hm, Directory.put, Directory.prepare]
  | disk =>
    have hsettled : (Sink.settle d o.sink).1.medium = .disk := by
      unfold Sink.settle Directory.patch
      dsimp only
      split <;> exact hm
    have hstill : (Sink.settle d o.sink).2.faults = {} := hfaults
    simp [finish, Sink.flush, Sink.finish, hfaults, hm, hsettled, hstill]

end Output

end ColumnStore.Storage
