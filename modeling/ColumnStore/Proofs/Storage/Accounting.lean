/-
What an output says of the bytes that its sink has taken.

A sink may take any first part of the bytes that a call offers, put the call off, take nothing or fail. `Grows` says that
the sink of an output took some bytes more, and that count and register moved on by just these.
- `grows_call`: one call takes as many of the first bytes as the sink answers;
- `writeAll_eq`, `writeAll_attempted`, `Item.write_attempted`: a write is such calls one after the other, so it takes a
  first part of its bytes, and all of them just if it succeeds (`Attempted`);
- `grows_runAll`: growth is transitive, which carries it over any operations, failed ones among them;
- `output_accounting`: position and checksum speak of the bytes that the sink took.
-/
import ColumnStore.Proofs.Storage.Items

namespace ColumnStore.Storage

variable {o p q : Output} {bs xs ys : Bytes}

theorem SinkFaults.taken_reply_le (faults : SinkFaults) (accepted offered : Nat) :
    (faults.reply accepted offered).taken ≤ offered := by
  unfold reply
  split
  · exact Nat.min_le_right _ _
  · next r rest hnone _ =>
    cases r with
    | took count => exact absurd rfl (hnone count)
    | interrupted => exact Nat.zero_le _
    | refused fault => exact Nat.zero_le _
  · dsimp only
    split
    · exact Nat.min_le_left _ _
    · split
      · exact Nat.zero_le _
      · exact (Nat.min_le_left _ _).trans (Nat.min_le_left _ _)

theorem Sink.accepted_accept (d : Directory) (s : Sink) (bs : Bytes) :
    Bytes.ofArray (s.accept d bs).2.accepted = Bytes.ofArray s.accepted ++ bs := by
  rw [← Bytes.ofArray_appendTo]
  unfold Sink.accept
  cases d.medium with
  | memory => rfl
  | disk =>
    dsimp only
    split <;> split <;> rfl

theorem Sink.accepted_flush (d : Directory) (s : Sink) : (s.flush d).2.1.accepted = s.accepted := by
  unfold Sink.flush
  split
  · rfl
  · split <;> rfl

namespace Output

/-! ## Growth -/

/-- the sink took these bytes more, and the output counted and checked just them -/
structure Grows (o p : Output) (bs : Bytes) : Prop where
  accepted : Bytes.ofArray p.sink.accepted = Bytes.ofArray o.sink.accepted ++ bs
  register : p.register = Crc32.feedAll o.register bs
  written : p.written = o.written + bs.length

theorem Grows.refl (o : Output) : o.Grows o [] := ⟨(List.append_nil _).symm, rfl, rfl⟩

theorem Grows.trans (h : o.Grows p xs) (h' : p.Grows q ys) : o.Grows q (xs ++ ys) where
  accepted := by rw [h'.accepted, h.accepted, List.append_assoc]
  register := by rw [h'.register, h.register, Crc32.feedAll_append]
  written := by rw [h'.written, h.written, List.length_append, Nat.add_assoc]

theorem grows_flush (d : Directory) (o : Output) : o.Grows (o.flush d).2.1 [] :=
  ⟨by rw [List.append_nil, ← o.sink.accepted_flush d]; rfl, rfl, rfl⟩

/-! ## Calls -/

/-- **One call.** The output grows by as many of the first bytes as its sink answers. -/
theorem grows_call (d : Directory) (o : Output) (bs : Bytes) (offered : Nat) :
    o.Grows (o.call d bs offered).2.1 (bs.take (o.sink.reply offered).taken) := by
  rw [call_eq]
  exact ⟨o.answered.sink.accepted_accept d _, rfl, rfl⟩

/-- the same of a call whose answer is known -/
theorem grows_of_call {d e : Directory} {offered : Nat} {reply : Reply} (h : o.call d bs offered = (e, p, reply)) :
    o.Grows p (bs.take reply.taken) := by
  have hgrows := o.grows_call d bs offered
  rwa [← o.reply_call d bs offered, h] at hgrows

/-- **A whole piece.** Writing it is calling with what is left of it: once more after an interruption, and up to the first
call that is refused or takes nothing. -/
theorem writeAll_eq (d : Directory) (o : Output) (bs : Bytes) :
    o.writeAll d bs =
      if bs = [] then (d, o, .ok ())
      else
        match o.write d bs with
        | (d, o, .interrupted) => o.writeAll d bs
        | (d, o, .refused fault) => (d, o, .error fault)
        | (d, o, .took count) => if count = 0 then (d, o, .error .writeZero) else o.writeAll d (bs.drop count) := by
  rw [writeAll, offer]
  by_cases hnil : bs = []
  · rw [dif_pos hnil, if_pos hnil]
  · rw [dif_neg hnil, if_neg hnil, write]
    split
    · next hcall => rw [hcall]; rfl
    · next hcall => rw [hcall]
    · next hcall => rw [hcall]; simp only [writeAll, List.length_drop, dite_eq_ite]

/-! ## Writes -/

/-- an attempt to write bytes took a first part of them, and all of them just if it succeeded -/
def Attempted (o : Output) (bs : Bytes) (p : Output) (result : Except IoError Unit) : Prop :=
  ∃ part, part <+: bs ∧ o.Grows p part ∧ (result = .ok () ↔ part = bs)

theorem Attempted.nothing (o : Output) : o.Attempted [] o (.ok ()) :=
  ⟨[], List.prefix_rfl, Grows.refl o, iff_of_true rfl rfl⟩

/-- the first call took nothing -/
theorem Attempted.refused (h : o.Grows p []) (hne : bs ≠ []) (fault : IoError) : o.Attempted bs p (.error fault) :=
  ⟨[], List.nil_prefix, h, iff_of_false (by simp) hne.symm⟩

/-- more is attempted after bytes that were taken -/
theorem Attempted.after {result : Except IoError Unit} (h : o.Grows p xs) (h' : p.Attempted ys q result) :
    o.Attempted (xs ++ ys) q result := by
  obtain ⟨part, hpart, hgrows, hok⟩ := h'
  exact ⟨xs ++ part, (List.prefix_append_right_inj xs).2 hpart, h.trans hgrows, hok.trans (List.append_right_inj xs).symm⟩

/-- what comes behind bytes that failed is not attempted -/
theorem Attempted.cut {fault : IoError} (h : o.Attempted xs p (.error fault)) (ys : Bytes) :
    o.Attempted (xs ++ ys) p (.error fault) := by
  obtain ⟨part, hpart, hgrows, hok⟩ := h
  refine ⟨part, hpart.trans (List.prefix_append _ _), hgrows, iff_of_false (by simp) ?_⟩
  intro hall
  have hle : xs.length ≤ part.length := by
    rw [hall, List.length_append]
    exact Nat.le_add_right _ _
  simpa using hok.2 (hpart.eq_of_length_le hle)

theorem offer_attempted (d : Directory) (o : Output) (bs : Bytes) (left : Nat) :
    o.Attempted bs (o.offer d bs left).2.1 (o.offer d bs left).2.2 := by
  fun_induction Output.offer d o bs left with
  | case1 d o left => exact .nothing o
  | case2 d o bs left _ e p hcall ih => exact .after (grows_of_call hcall) ih
  | case3 d o bs left hne e p fault hcall => exact .refused (grows_of_call hcall) hne fault
  | case4 d o bs left hne e p hcall => exact .refused (grows_of_call hcall) hne .writeZero
  | case5 d o bs left _ e p count hcall _ ih =>
    -- what this call took stands before what the later ones take
    have hall := Attempted.after (grows_of_call hcall) ih
    rwa [Reply.taken, List.take_append_drop] at hall

/-- **A piece.** A write of a piece takes a first part of it, and all of it just if it succeeds. -/
theorem writeAll_attempted (d : Directory) (o : Output) (bs : Bytes) :
    o.Attempted bs (o.writeAll d bs).2.1 (o.writeAll d bs).2.2 := offer_attempted d o bs bs.length

theorem writePieces_attempted (d : Directory) (o : Output) (pieces : List Bytes) :
    o.Attempted pieces.flatten (o.writePieces d pieces).2.1 (o.writePieces d pieces).2.2 := by
  induction pieces generalizing d o with
  | nil => exact .nothing o
  | cons piece pieces ih =>
    have hpiece := writeAll_attempted d o piece
    rw [writePieces, List.flatten_cons]
    generalize o.writeAll d piece = written at hpiece
    obtain ⟨e, p, result⟩ := written
    cases result with
    | error fault => exact hpiece.cut _
    | ok _ =>
      obtain ⟨part, -, hgrows, hok⟩ := hpiece
      rw [hok.1 rfl] at hgrows
      exact .after hgrows (ih e p)

end Output

/-! ## Operations -/

/-- **A value.** A typed write takes a first part of the bytes of its value, and all of them just if it succeeds. -/
theorem Item.write_attempted (d : Directory) (o : Output) (item : Item) :
    o.Attempted item.encoded (item.write d o).2.1 (item.write d o).2.2 := by
  cases item with
  | byte b => exact o.writeAll_attempted d _
  | bytes bs => exact o.writeAll_attempted d _
  | uint32 w => exact o.writeAll_attempted d _
  | int64 v => exact o.writeAll_attempted d _
  | uint128 w => exact o.writeAll_attempted d _
  | varint32 w =>
    have hwrite := o.writePieces_attempted d (Varint.pieces w.toNat)
    rwa [Varint.flatten_pieces] at hwrite
  | varint n =>
    have hwrite := o.writePieces_attempted d (Varint.pieces n.toNat)
    rwa [Varint.flatten_pieces] at hwrite
  | text t => exact o.writePieces_attempted d _

/-- what can be asked of an open output, as often as one likes -/
inductive Operation where
  /-- write a value -/
  | value (item : Item)
  /-- one call that offers bytes -/
  | call (bs : Bytes)
  | flush
  deriving DecidableEq

namespace Operation

/-- the output after an operation, whatever came of it -/
def run (d : Directory) (o : Output) : Operation → Directory × Output
  | .value item => ((item.write d o).1, (item.write d o).2.1)
  | .call bs => ((o.write d bs).1, (o.write d bs).2.1)
  | .flush => ((o.flush d).1, (o.flush d).2.1)

/-- the output after operations one after the other; none is left out because one before it failed -/
def runAll (d : Directory) (o : Output) : List Operation → Directory × Output
  | [] => (d, o)
  | op :: ops => runAll (op.run d o).1 (op.run d o).2 ops

theorem grows_run (d : Directory) (o : Output) (op : Operation) : ∃ part, o.Grows (op.run d o).2 part := by
  cases op with
  | value item =>
    obtain ⟨part, -, hgrows, -⟩ := item.write_attempted d o
    exact ⟨part, hgrows⟩
  | call bs => exact ⟨_, o.grows_call d bs bs.length⟩
  | flush => exact ⟨[], o.grows_flush d⟩

theorem grows_runAll (d : Directory) (o : Output) (ops : List Operation) : ∃ taken, o.Grows (runAll d o ops).2 taken := by
  induction ops generalizing d o with
  | nil => exact ⟨[], Output.Grows.refl o⟩
  | cons op ops ih =>
    obtain ⟨part, hpart⟩ := op.grows_run d o
    obtain ⟨taken, htaken⟩ := ih (op.run d o).1 (op.run d o).2
    exact ⟨part ++ taken, hpart.trans htaken⟩

end Operation

/-- **Position and checksum speak of the bytes that the sink took.** An output is opened over any sink, whose answers may
cut each call short, put it off, take nothing or fail it; they can be scripted for any number of calls. After any
operations, failed ones among them, its position is the number of the bytes that the sink took in all and its checksum is
theirs. From there one call answers what the sink does, which takes as many of the first bytes offered as that says, and a
typed write adds a first part of its bytes, which is all of them just if it succeeds. -/
theorem output_accounting (d : Directory) (name : String) (s : Sink) (ops : List Operation) :
    let e := (Operation.runAll d { name, sink := s } ops).1
    let o := (Operation.runAll d { name, sink := s } ops).2
    (∃ taken, Bytes.ofArray o.sink.accepted = Bytes.ofArray s.accepted ++ taken ∧
      o.position = taken.length ∧ o.checksum = Crc32.checksum taken) ∧
    (∀ bs, (o.write e bs).2.2 = o.sink.reply bs.length ∧ (o.sink.reply bs.length).taken ≤ bs.length ∧
      Bytes.ofArray (o.write e bs).2.1.sink.accepted =
        Bytes.ofArray o.sink.accepted ++ bs.take (o.sink.reply bs.length).taken) ∧
    ∀ item : Item, ∃ part, part <+: item.encoded ∧
      Bytes.ofArray (item.write e o).2.1.sink.accepted = Bytes.ofArray o.sink.accepted ++ part ∧
      ((item.write e o).2.2 = .ok () ↔ part = item.encoded) := by
  intro e o
  obtain ⟨taken, hgrows⟩ := Operation.grows_runAll d { name, sink := s } ops
  refine ⟨⟨taken, hgrows.accepted, ?_, ?_⟩, ?_, ?_⟩
  · exact hgrows.written.trans (Nat.zero_add _)
  · exact congrArg Crc32.finish hgrows.register
  · intro bs
    have hle := o.sink.faults.taken_reply_le o.sink.accepted.size bs.length
    exact ⟨o.reply_call e bs bs.length, hle, (o.grows_call e bs bs.length).accepted⟩
  · intro item
    obtain ⟨part, hpart, hitem, hok⟩ := item.write_attempted e o
    exact ⟨part, hpart, hitem.accepted, hok⟩

end ColumnStore.Storage
