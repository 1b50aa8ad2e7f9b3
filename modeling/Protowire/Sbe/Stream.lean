import Protowire.Sbe.RoundTrip
import Protowire.Sbe.StreamCore
import Protowire.Support.Framing

/-!
Framed messages. The length a frame states has 32 bits, and a message of two groups can be longer
than that; short of it a stream that was cut anywhere gives its whole frames, in order, and then
the end on every call.
-/

namespace Protowire.Sbe

open Support

theorem ofBig_toBig (width n : Nat) : ofBig 0 (toBig width n) = n % 256 ^ width := by
  rw [toBig, ofBig_reverse, ofLittle_toLittle]

theorem length_toBig (width n : Nat) : (toBig width n).length = width := by simp [toBig]

theorem length_writeFrame (body : Bytes) :
    (writeFrame body).length = sofhHeaderLen + body.length := by
  simp [writeFrame, length_toBig, sofhHeaderLen, Nat.add_comm]

def statedTotal (frame : Bytes) : Nat := ofBig 0 (frame.take 4)

theorem statedTotal_writeFrame (body rest : Bytes) :
    statedTotal (writeFrame body ++ rest) = (sofhHeaderLen + body.length) % 2 ^ 32 := by
  rw [statedTotal, writeFrame, List.append_assoc, List.append_assoc,
    List.take_left' (length_toBig _ _), ofBig_toBig]
  rfl

def Codec.frameSize (c : Codec) (message : Bytes × Message) : Nat :=
  match c.templateByName message.1 with
  | none => 0
  | some tmpl =>
    sofhHeaderLen + (8 + tmpl.blockLength +
      (tmpl.groups.map fun gt =>
        4 + gt.blockLength * (message.2.entries gt.fd.number).length).sum)

theorem length_groupsBytes {msg : Message} {groups : List GroupTemplate}
    (sound : ∀ gt ∈ groups, gt.Sound) {bytes : Bytes} (written : groupsBytes msg groups = .ok bytes) :
    bytes.length =
      (groups.map fun gt => 4 + gt.blockLength * (msg.entries gt.fd.number).length).sum := by
  induction groups generalizing bytes with
  | nil =>
    cases written
    rfl
  | cons gt rest ih =>
    obtain ⟨entries, others, -, writtenEntries, writtenRest, rfl⟩ := groupsBytes_cons written
    have length := entriesBytes_length (sound gt (by simp)) writtenEntries
    rw [List.length_append, length_groupBytes, length,
      ih (fun gt member => sound gt (by simp [member])) writtenRest, List.map_cons, List.sum_cons]

theorem Codec.frameSize_eq {c : Codec} (sound : c.Sound) {message : Bytes × Message} {body : Bytes}
    (written : c.marshal message.1 message.2 = .ok body) :
    (writeFrame body).length = c.frameSize message := by
  rw [length_writeFrame, frameSize]
  rw [Codec.marshal] at written
  cases registered : c.templateByName message.1 with
  | none =>
    rw [registered] at written
    cases written
  | some tmpl =>
    rw [registered] at written
    obtain ⟨sound, -⟩ := sound _ _ registered
    obtain ⟨block, groups, -, writtenGroups, length, rfl⟩ :=
      MessageTemplate.marshal_ok sound written
    rw [List.length_append, List.length_append, tmpl.length_header, length,
      length_groupsBytes sound.groups writtenGroups]

variable {d : Decoder}

theorem readFrame_sticky {problem : Problem} (failed : d.err = some problem) :
    d.readFrame = (.error problem, d) := by
  rw [Decoder.readFrame, failed]

theorem readFrame_end (working : d.err = none) (stream : d.r = []) :
    d.readFrame = (.error eof, d) := by
  rw [Decoder.readFrame, working, stream]
  rfl

structure Admitted (max : Int) (body : Bytes) : Prop where
  stated : sofhHeaderLen + body.length < 2 ^ 32
  limit : (body.length : Int) ≤ max

theorem readFrame_header {body part : Bytes} (working : d.err = none) (admitted : Admitted d.max body)
    (stream : d.r = toBig 4 (sofhHeaderLen + body.length) ++ toBig 2 sofhEncodingSbeLE ++ part) :
    d.readFrame =
      if part.length < body.length then d.fail [] unexpectedEOF
      else (.ok (part.take body.length), { d with r := part.drop body.length }) := by
  have front : (toBig 4 (sofhHeaderLen + body.length) ++ toBig 2 sofhEncodingSbeLE).length =
      sofhHeaderLen := by simp [length_toBig, sofhHeaderLen]
  have long : ¬ d.r.length < sofhHeaderLen := by
    rw [stream, List.length_append, front]
    omega
  have rest : d.r.drop sofhHeaderLen = part := by rw [stream, List.drop_left' front]
  have total : ofBig 0 (d.r.take 4) = sofhHeaderLen + body.length := by
    rw [stream, List.append_assoc, List.take_left' (length_toBig _ _), ofBig_toBig]
    exact Nat.mod_eq_of_lt admitted.stated
  have enc : ofBig 0 ((d.r.drop 4).take 2) = sofhEncodingSbeLE := by
    rw [stream, List.append_assoc, List.drop_left' (length_toBig _ _),
      List.take_left' (length_toBig _ _), ofBig_toBig]
    rfl
  have limit : ¬ d.max < (body.length : Int) := Int.not_lt.mpr admitted.limit
  rw [Decoder.readFrame, working]
  simp only [rest, total, enc, Nat.add_sub_cancel_left]
  rw [if_neg long, if_neg (by simp), if_neg (by omega), if_neg limit]

theorem readFrame_whole {body rest : Bytes} (working : d.err = none) (admitted : Admitted d.max body)
    (stream : d.r = writeFrame body ++ rest) :
    d.readFrame = (.ok body, { d with r := rest }) := by
  rw [writeFrame, List.append_assoc] at stream
  rw [readFrame_header working admitted stream, if_neg (by simp)]
  simp

theorem readFrame_cut {body : Bytes} (working : d.err = none) (admitted : Admitted d.max body)
    (isPrefix : d.r <+: writeFrame body) (proper : d.r ≠ writeFrame body) (some_ : d.r ≠ []) :
    d.readFrame = (.error unexpectedEOF, { d with r := [], err := some unexpectedEOF }) := by
  by_cases short : d.r.length < sofhHeaderLen
  · rw [Decoder.readFrame, working, if_pos short, if_neg (by simpa using some_)]
    rfl
  · have front : (toBig 4 (sofhHeaderLen + body.length) ++ toBig 2 sofhEncodingSbeLE).length ≤
        d.r.length := by
      simpa [length_toBig, sofhHeaderLen] using short
    obtain ⟨part, stream⟩ :=
      List.prefix_of_prefix_length_le (List.prefix_append _ _) isPrefix front
    have inside : part.length < body.length := by
      rw [← stream, writeFrame, List.prefix_append_right_inj] at isPrefix
      apply Nat.lt_of_le_of_ne isPrefix.length_le
      intro same
      rw [← stream, isPrefix.eq_of_length same] at proper
      exact proper rfl
    rw [readFrame_header working admitted stream.symm, if_pos inside]
    rfl

def framing (max : Int) : Framing Decoder Problem UInt8 where
  write := writeFrame
  read := Decoder.readFrame
  Holds d left := d.err = none ∧ d.max = max ∧ d.r = left
  Admits := Admitted max
  ended := eof
  cut := unexpectedEOF
  read_whole := by
    rintro d body rest ⟨working, rfl, stream⟩ admitted
    exact ⟨_, readFrame_whole working admitted stream, working, rfl, rfl⟩
  read_ended := by
    rintro d ⟨working, -, stream⟩
    exact readFrame_end working stream
  read_cut := by
    rintro d body left ⟨working, rfl, rfl⟩ admitted isPrefix proper some_
    exact ⟨_, readFrame_cut working admitted isPrefix proper some_, readFrame_sticky rfl⟩

theorem Codec.decodeEach_eq_calls (c : Codec) (max : Int) (fullNames : List Bytes) :
    ∀ d : Decoder, c.decodeEach d fullNames =
      (framing max).calls (fun fullName body => c.unmarshal fullName body .fresh) d fullNames := by
  induction fullNames with
  | nil => intro d; rfl
  | cons fullName fullNames ih =>
    intro d
    rw [decodeEach, Framing.calls, ih, decode]
    change _ = d.readFrame.1.bind _ :: Framing.calls _ _ d.readFrame.2 _
    rcases d.readFrame with ⟨_ | _, _⟩ <;> rfl

def Codec.Bodies (c : Codec) (messages : List (Bytes × Message)) (bodies : List Bytes) : Prop :=
  messages.map (fun message => c.marshal message.1 message.2) = bodies.map .ok

theorem Codec.foldlM_encode {c : Codec} {messages : List (Bytes × Message)} :
    ∀ {written stream : Bytes}, messages.foldlM c.encode written = .ok stream →
      ∃ bodies, c.Bodies messages bodies ∧ stream = written ++ bodies.flatMap writeFrame := by
  induction messages with
  | nil =>
    intro written stream encoded
    cases encoded
    exact ⟨[], rfl, by simp⟩
  | cons message messages ih =>
    intro written stream encoded
    rw [List.foldlM_cons, encode] at encoded
    obtain ⟨_, encodedFirst, encoded⟩ := except_bind_ok encoded
    obtain ⟨body, marshalled, encodedFirst⟩ := except_bind_ok encodedFirst
    cases encodedFirst
    obtain ⟨bodies, each, rfl⟩ := ih encoded
    refine ⟨body :: bodies, ?_, by simp⟩
    rw [Bodies, List.map_cons, marshalled, each, List.map_cons]

theorem Codec.Bodies.sizes {c : Codec} (sound : c.Sound) : ∀ {messages : List (Bytes × Message)}
    {bodies : List Bytes}, c.Bodies messages bodies →
    bodies.map (fun body => (writeFrame body).length) = messages.map c.frameSize
  | [], [], _ => rfl
  | [], _ :: _, each => by cases each
  | _ :: _, [], each => by cases each
  | message :: messages, body :: bodies, each => by
    rw [Bodies, List.map_cons, List.map_cons, List.cons.injEq] at each
    rw [List.map_cons, List.map_cons, frameSize_eq sound each.1, sizes sound each.2]

theorem Codec.Bodies.stated_iff {c : Codec} (sound : c.Sound) {messages : List (Bytes × Message)}
    {bodies : List Bytes} (each : c.Bodies messages bodies) :
    (∀ body ∈ bodies, sofhHeaderLen + body.length < 2 ^ 32) ↔
      ∀ message ∈ messages, c.frameSize message < 2 ^ 32 := by
  have sizes := each.sizes sound
  rw [← List.forall_mem_map (f := c.frameSize) (P := fun size => size < 2 ^ 32), ← sizes]
  simp only [List.forall_mem_map, length_writeFrame]

/-- What a session gives on a part of a stream of frames: each whole frame's body is read into its
message, whether or not it decodes, and every later call reports the end, an unexpected one where
the cut is inside a frame. -/
def Codec.Session (c : Codec) (bodies : List Bytes) (max : Int) (cut : Bytes)
    (fullNames : List Bytes) : Prop :=
  c.decodeEach { r := cut, max } fullNames =
    List.zipWith (fun body fullName => c.unmarshal fullName body .fresh)
        (bodies.take (wholeOf writeFrame bodies cut.length)) fullNames ++
      (fullNames.drop (wholeOf writeFrame bodies cut.length)).map fun _ =>
        .error (if ((bodies.take (wholeOf writeFrame bodies cut.length)).flatMap
          writeFrame).length = cut.length then eof else unexpectedEOF)

theorem Codec.session_of_stated (c : Codec) {bodies : List Bytes} {max : Int} {cut : Bytes}
    (stated : ∀ body ∈ bodies, sofhHeaderLen + body.length < 2 ^ 32)
    (limit : ∀ body ∈ bodies, (body.length : Int) ≤ max)
    (isPrefix : cut <+: bodies.flatMap writeFrame) (fullNames : List Bytes) :
    c.Session bodies max cut fullNames := by
  have admitted : ∀ body ∈ bodies, (framing max).Admits body := fun body member =>
    ⟨stated body member, limit body member⟩
  have session := (framing max).calls_eq
    (fun fullName body => c.unmarshal fullName body .fresh) bodies fullNames
    (d := { r := cut, max }) ⟨rfl, rfl, rfl⟩ admitted isPrefix
  rw [Session, c.decodeEach_eq_calls max, session]
  rfl

/-- Frames state their lengths and a stream that is cut anywhere is read up to the cut, exactly
when no frame is as long as 2^32 bytes. -/
theorem Codec.decodeEach_framed {files : List FileDescriptor} {opts : CodecOptions} {c : Codec}
    (accepted : Codec.new files opts = .ok c) {messages : List (Bytes × Message)} {stream : Bytes}
    (encoded : c.encodeAll messages = .ok stream) :
    (∃ bodies, c.Bodies messages bodies ∧ stream = bodies.flatMap writeFrame ∧
      (∀ body ∈ bodies, ∀ rest,
        statedTotal (writeFrame body ++ rest) = sofhHeaderLen + body.length) ∧
      ∀ max : Int, (∀ body ∈ bodies, (body.length : Int) ≤ max) →
        ∀ cut, cut <+: stream → ∀ fullNames, c.Session bodies max cut fullNames) ↔
      ∀ message ∈ messages, c.frameSize message < 2 ^ 32 := by
  have sound := Codec.new_sound accepted
  constructor
  · rintro ⟨bodies, each, -, states, -⟩
    refine (each.stated_iff sound).mp ?_
    intro body member
    rw [← states body member [], statedTotal_writeFrame]
    exact Nat.mod_lt _ (by decide)
  · intro small
    obtain ⟨bodies, each, rfl⟩ := foldlM_encode encoded
    have stated := (each.stated_iff sound).mpr small
    refine ⟨bodies, each, rfl, ?_, ?_⟩
    · intro body member rest
      rw [statedTotal_writeFrame]
      exact Nat.mod_eq_of_lt (stated body member)
    · intro max limit cut isPrefix fullNames
      exact c.session_of_stated stated limit isPrefix fullNames

theorem Codec.decodeEach_framed_trade :
    ∃ bodies, tradeCodec.Bodies [(text "Trade", trade)] bodies ∧
      writeFrame tradeBytes = bodies.flatMap writeFrame ∧
      statedTotal (writeFrame tradeBytes) = 27 ∧
      tradeCodec.decodeEach { r := (writeFrame tradeBytes).take 10 } [text "Trade", text "Trade"] =
        [.error unexpectedEOF, .error unexpectedEOF] := by
  have encoded : tradeCodec.encodeAll [(text "Trade", trade)] = .ok (writeFrame tradeBytes) := rfl
  obtain ⟨bodies, each, stream, -⟩ :=
    (Codec.decodeEach_framed trade_accepted encoded).mpr (by decide)
  exact ⟨bodies, each, stream, rfl, rfl⟩

def rowText : FieldDescriptor :=
  .scalar { name := text "text", fullName := text "Row.text", number := 1, length := some 65535 }
    .string

def rowType : Descriptor := .mk (text "Row") none false [rowText] []

def sheetRows (name fullName : Bytes) (number : Nat) : FieldDescriptor :=
  .message { name, fullName, number, repeated := true } rowType

def sheetHead : FieldDescriptor := sheetRows (text "head") (text "Sheet.head") 1

def sheetTail : FieldDescriptor := sheetRows (text "tail") (text "Sheet.tail") 2

def sheetFile : FileDescriptor where
  name := text "sheet.proto"
  schemaId := some 1
  messageTypes := [rowType, .mk (text "Sheet") (some 1) false [sheetHead, sheetTail] []]
  wellFormed := by decide

def rowTemplate : FieldTemplate := .mk rowText 0 65535 (some .char) []

def rowsGroup (fd : FieldDescriptor) : GroupTemplate where
  fd
  blockLength := 65535
  fields := [rowTemplate]

def sheetTemplate : MessageTemplate where
  templateId := 1
  schemaId := 1
  version := 0
  blockLength := 0
  fields := []
  groups := [rowsGroup sheetHead, rowsGroup sheetTail]

def sheetCodec : Codec where
  byName := [(text "Sheet", sheetTemplate)]
  byId := [((1, 1), (text "Sheet", sheetTemplate))]
  maxMessageSize := Limit.maxMessageSize
  maxRepeated := Limit.maxRepeatedCount

theorem sheet_accepted : Codec.new [sheetFile] = .ok sheetCodec := rfl

def sheet : Message :=
  .mk (fun _ => none) (fun _ => none) fun n =>
    if n = 1 ∨ n = 2 then List.replicate 65535 .fresh else []

theorem entriesBytes_replicate {fields : List FieldTemplate} {entry : Message} {bytes : Bytes}
    (written : blockBytes fields entry = .ok bytes) (count : Nat) :
    ∃ entries, entriesBytes fields (List.replicate count entry) = .ok entries := by
  induction count with
  | zero => exact ⟨[], rfl⟩
  | succ count ih =>
    obtain ⟨entries, writtenRest⟩ := ih
    refine ⟨bytes ++ entries, ?_⟩
    rw [List.replicate_succ, entriesBytes, written, writtenRest]
    rfl

theorem rowsGroup_entries {fd : FieldDescriptor} (rows : fd.number = 1 ∨ fd.number = 2) :
    sheet.entries (rowsGroup fd).fd.number = List.replicate 65535 .fresh := if_pos rows

theorem rowsGroup_written (fd : FieldDescriptor) :
    ∃ rows, entriesBytes (rowsGroup fd).fields (List.replicate 65535 .fresh) = .ok rows := by
  have row : blockBytes [rowTemplate] .fresh = .ok (fixedString rowText .string 65535 .fresh ++ []) :=
    rfl
  exact entriesBytes_replicate row 65535

theorem rowsGroup_size {fd : FieldDescriptor} (rows : fd.number = 1 ∨ fd.number = 2) :
    4 + (rowsGroup fd).blockLength * (sheet.entries (rowsGroup fd).fd.number).length =
      4294836229 := by
  have block : (rowsGroup fd).blockLength = 65535 := rfl
  rw [block, rowsGroup_entries rows, List.length_replicate]

theorem sheet_written : ∃ body, sheetCodec.marshal (text "Sheet") sheet = .ok body := by
  have few : ¬ (List.replicate 65535 Message.fresh).length > maxUint16 := by
    rw [List.length_replicate]
    decide
  obtain ⟨head, writtenHead⟩ := rowsGroup_written sheetHead
  obtain ⟨tail, writtenTail⟩ := rowsGroup_written sheetTail
  have groups : ∃ groups, groupsBytes sheet [rowsGroup sheetHead, rowsGroup sheetTail] =
      .ok groups := by
    rw [groupsBytes, groupsBytes, groupsBytes, rowsGroup_entries (.inl rfl),
      rowsGroup_entries (.inr rfl)]
    simp only [if_neg few, writtenHead, writtenTail]
    exact ⟨_, rfl⟩
  obtain ⟨groups, writtenGroups⟩ := groups
  obtain ⟨sound, -⟩ := Codec.new_sound sheet_accepted (text "Sheet") sheetTemplate rfl
  have block : blockBytes sheetTemplate.fields sheet = .ok [] := rfl
  exact ⟨_, sheetTemplate.marshal_bytes sound block writtenGroups⟩

theorem frameSize_two {c : Codec} {name : Bytes} {msg : Message} {tmpl : MessageTemplate}
    {g h : GroupTemplate} {size : Nat} (registered : c.templateByName name = some tmpl)
    (block : tmpl.blockLength = 0) (groups : tmpl.groups = [g, h])
    (first : 4 + g.blockLength * (msg.entries g.fd.number).length = size)
    (second : 4 + h.blockLength * (msg.entries h.fd.number).length = size) :
    c.frameSize (name, msg) = 14 + 2 * size := by
  rw [Codec.frameSize, registered]
  simp only [groups, block, List.map_cons, List.map_nil, List.sum_cons, List.sum_nil, first, second,
    sofhHeaderLen]
  omega

theorem sheet_size : sheetCodec.frameSize (text "Sheet", sheet) = 8589672472 :=
  frameSize_two rfl rfl rfl (rowsGroup_size (.inl rfl)) (rowsGroup_size (.inr rfl))

theorem Codec.encode_wraps_sheet :
    Codec.new [sheetFile] = .ok sheetCodec ∧
      ∃ body, sheetCodec.encodeAll [(text "Sheet", sheet)] = .ok (writeFrame body) ∧
        sofhHeaderLen + body.length = 8589672472 ∧
        statedTotal (writeFrame body) = 4294705176 := by
  obtain ⟨body, written⟩ := sheet_written
  have length : sofhHeaderLen + body.length = 8589672472 := by
    rw [← length_writeFrame, ← sheet_size]
    exact Codec.frameSize_eq (Codec.new_sound sheet_accepted) written
  refine ⟨sheet_accepted, body, ?_, length, ?_⟩
  · rw [encodeAll, List.foldlM_cons, encode, written]
    rfl
  · have total := statedTotal_writeFrame body []
    rw [List.append_nil, length] at total
    exact total

end Protowire.Sbe
