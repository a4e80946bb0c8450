import RowStream.Proofs.Row.Listing
import RowStream.Proofs.RowWriter.Reported

/-!
# What row writers send can be read

A request says the descriptor that its rows are encoded by. Whatever became of the row writer after the
append, of its schema and of the channels of its connection, the rows of a request that goes out are read
back under that descriptor as the messages that the encoder built, unless a value was lost. By the
descriptor of a table nothing is; by others a row in the field of a map is, since it is no map when it is
built, though the row writer takes it.

* `sent_readsBack`: all that goes out for an append, at first or again.
* `sent_map`: a row in the field of a map.
-/

namespace RowStream.Stream.RowWriting

variable {s : RowWriting} {k : RowWriter.Call} {n : Nat}

/-- The encoder that an append leaves has the shape of the descriptor that its write says. -/
theorem Reachable.written_encoder (h : s.Reachable) (hn : s.written k = some n) :
    ∃ d rows bytes, Shape.ofDescriptor d = .ok (s.call k).writer.encoder.shape ∧
      k.rows? = some rows ∧ (s.call k).writer.encoder.encode rows = .ok bytes ∧
      (s.call k).connection.Carries n d bytes := by
  obtain ⟨rows, shape, bytes, hrows, hshape, henc, hcarries⟩ := h.written hn
  obtain ⟨halive, rows', offset, -, hwriter, -⟩ := written_eq_some hn
  have hagrees : Shape.ofDescriptor (s.call k).writer.writer.descriptor =
    .ok (s.call k).writer.encoder.shape := (h.called halive k).agrees
  obtain rfl := Except.ok.inj (hshape.symm.trans hagrees)
  have hdates : (s.call k).writer.encoder.convertDates = s.writer.encoder.convertDates := by
    rw [hwriter, RowWriter.append_writer, RowWriter.applyEvents_convertDates]
  rw [← hdates] at henc
  exact ⟨_, rows, bytes, hagrees, hrows, henc, hcarries⟩

/-- **What goes out for an append is read back.** Whatever happens after the append, and on whichever
channel the request is sent, it holds the rows of the call, encoded by the descriptor that it says: one
byte string for each row, in order, which is that of the message that the encoder built and gives it back
under that descriptor if nothing of the row is lost. Nothing is lost by the descriptor of a table, be its
schema given or reported. -/
theorem sent_readsBack (h : s.Reachable) (hn : s.written k = some n) (es : List Event) (g : Nat)
    {x : Sent} (hx : x ∈ ((s.call k).runShared es).connection.sentOn g) (hwrite : x.write = n) :
    ∃ d rows bytes, x.request.data = some { schema := some ⟨some d⟩, rows := some ⟨bytes⟩ } ∧
      k.rows? = some rows ∧ Shape.ofDescriptor d = .ok (s.call k).writer.encoder.shape ∧
      List.Forall₂ (s.call k).writer.encoder.ReadsBack rows bytes ∧
      ∀ t, Shape.writerDescriptor t rootScope .proto2 = .ok d → ∀ row ∈ rows,
        (s.call k).writer.encoder.Keeps row := by
  obtain ⟨d, rows, bytes, hshape, hrows, henc, hcarries⟩ := h.written_encoder hn
  obtain ⟨halive, -⟩ := written_eq_some hn
  have hr : (s.call k).Reachable := h.called halive k
  have hdata := ((hr.extends es).carries hcarries).sent (hr.run es).connection hx hwrite
  exact ⟨d, rows, bytes, hdata, hrows, hshape, Encoder.encode_readsBack hshape henc,
    fun t ht row _ => Shape.keeps_of_table ht hshape row⟩

/-- A row is encoded by a schema that was reported and its channel is refused; the descriptor that is set
then replaces the channel, and the row goes out again as it was. -/
theorem sent_readsBack_again :
    let s := atStart.runShared report
    let k := RowWriter.Call.append [[("x", .int 7)]] none
    let es := [.other (.receive 2 (.refused denied)), .call (.setDescriptor { name := some "new" })]
    s.Reachable ∧ s.written k = some 1 ∧
      ∃ x ∈ ((s.call k).runShared es).connection.sentOn 3, x.write = 1 ∧
        ∃ d rows bytes, x.request.data = some { schema := some ⟨some d⟩, rows := some ⟨bytes⟩ } ∧
          k.rows? = some rows ∧ Shape.ofDescriptor d = .ok (s.call k).writer.encoder.shape ∧
          List.Forall₂ (s.call k).writer.encoder.ReadsBack rows bytes ∧
          ∀ t, Shape.writerDescriptor t rootScope .proto2 = .ok d → ∀ row ∈ rows,
            (s.call k).writer.encoder.Keeps row := by
  intro s k es
  have hr : s.Reachable := reachable_atStart.run _
  have hn : s.written k = some 1 := by cbv
  have hsent : (((s.call k).runShared es).connection.sentOn 3).map (·.write) = [1] := by cbv
  obtain ⟨x, hx, hwrite⟩ := List.mem_map.mp (hsent ▸ List.mem_singleton_self 1)
  exact ⟨hr, hn, x, hx, hwrite, sent_readsBack hr hn es 3 hx hwrite⟩

/-- A field that is declared with the numbers of its label and its type, and with the type's name. -/
def numbered (name : String) (number label type : Int32) (typeName : Option String) :
    Descriptor.Field :=
  { name := some name, number := some number, label := some label, type := some type,
    typeName := typeName }

/-- The entries of a map from names to numbers. -/
def countEntry : Descriptor.Message where
  name := some "MEntry"
  fields := [numbered "key" 1 1 9 none, numbered "value" 2 1 3 none]
  options := some { mapEntry := some true }

/-- Rows with such a map. -/
def counts : Descriptor.Message where
  name := some "Counts"
  fields := [numbered "m" 1 3 11 (some ".Counts.MEntry")]
  nested := [countEntry]

/-- A row writer of such rows, made on a new connection. Its shape is written out, which lets messages be
built and read by evaluation. -/
def counting : RowWriting :=
  let resolved (d : Descriptor.Field) (n : Nat) (k : Pool.Kind) (l : Descriptor.Label) : Pool.Field :=
    { name := d.name.getD "", number := n, kind := k, label := l, packed := false,
      presence := l != .repeated, oneof := none, default? := none,
      descriptor := { d with jsonName := d.name } }
  let entry : Pool.Message := ⟨"Counts.MEntry",
    [resolved (numbered "key" 1 1 9 none) 1 (.scalar .string) .optional,
     resolved (numbered "value" 2 1 3 none) 2 (.scalar .int64) .optional], countEntry⟩
  let m : Pool.Message := ⟨"Counts",
    [resolved (numbered "m" 1 3 11 (some ".Counts.MEntry")) 1 (.message entry.fullName) .repeated],
    counts⟩
  ⟨⟨{ descriptor := counts }, { shape := ⟨⟨[m, entry], []⟩, m⟩ }, ⟨0⟩⟩,
    (Connection.blank "s" {}).connect⟩

/-- **A map does not come back as it was built.** The row writer takes a row in its field and sends it;
the message that the encoder built has a message there, the one that is read back a list of one. -/
theorem sent_map :
    let row : Row := [("m", .struct [("key", .string "a"), ("value", .int 1)])]
    let s := counting.call (.append [row] none)
    let entry : Message.Value := .message [(1, .string "a"), (2, .int64 1)]
    let bytes : List UInt8 := [10, 5, 10, 1, 97, 16, 1]
    counting.Reachable ∧ counting.written (.append [row] none) = some 0 ∧
      ((s.connection.sentOn 1).map fun x => (x.write, x.request.data)) =
        [(0, some { schema := some ⟨some counts⟩, rows := some ⟨[bytes]⟩ })] ∧
      Shape.ofDescriptor counts = .ok s.writer.encoder.shape ∧
      s.writer.encoder.message row = .ok [(1, entry)] ∧
      Message.decode s.writer.encoder.shape bytes = some [(1, .list [entry])] := by
  intro row s entry bytes
  have hcreate : RowWriter.create (Connection.blank "s" {}).connect counts = .ok counting.writer := by
    cbv
  have hr : counting.Reachable :=
    .create (Connection.reachable_created (Connection.create_eq (by decide))) hcreate
  exact ⟨hr, by rfl, by cbv, by cbv, by rfl, by rfl⟩

end RowStream.Stream.RowWriting
