import Protowire.Pb.Native
import Protowire.Pb.StreamCore
import Protowire.Support.Framing

/-!
Reading a stream that was cut anywhere: the frames that are whole are read in order, whatever
becomes of their bodies, and then the end is reported on every call.
-/

namespace Protowire.Pb.Native

open Support Wire Limit

variable {body : Bytes} {opts : MarshalOptions} {messages : List (Nat × Value)}

theorem readUvarintFrom_append (more : Nat) : ∀ i x v (rest : Bytes), i + more = 9 →
    v < 2 ^ (1 + 7 * more) →
    readUvarintFrom i x (appendVarintFrom more v ++ rest) = (.ok (x + v * 0x80 ^ i), rest) := by
  induction more with
  | zero =>
    intro i x v rest last small
    have byte : (UInt8.ofNat v).toNat = v := toNat_ofNat_lt (by omega)
    simp only [appendVarintFrom, List.cons_append, List.nil_append, readUvarintFrom, byte]
    rw [if_pos (by omega), if_neg (by omega)]
  | succ more ih =>
    intro i x v rest sum small
    rw [appendVarintFrom]
    split
    · rename_i single
      have byte : (UInt8.ofNat v).toNat = v := toNat_ofNat_lt (by omega)
      simp only [List.cons_append, List.nil_append, readUvarintFrom, byte]
      rw [if_pos single, if_neg (by omega)]
    · obtain ⟨byte, high⟩ := varint_continued small
      have low : (v % 0x80 + 0x80) % 0x80 = v % 0x80 := by omega
      simp only [List.cons_append, readUvarintFrom, byte, low]
      rw [if_neg (by omega), if_neg (by omega), ih (i + 1) _ _ _ (by omega) high]
      have value : v % 0x80 * 0x80 ^ i + v / 0x80 * 0x80 ^ (i + 1) = v * 0x80 ^ i := by
        rw [Nat.pow_succ, Nat.mul_comm (0x80 ^ i), ← Nat.mul_assoc, ← Nat.add_mul]
        congr 1
        omega
      rw [Nat.add_assoc, value]

theorem readUvarint_append {v : Nat} (fits : v < 2 ^ 64) (rest : Bytes) :
    readUvarint (appendVarint v ++ rest) = (.ok v, rest) := by
  rw [readUvarint, appendVarint, readUvarintFrom_append 9 0 0 v rest rfl fits]
  simp

theorem readUvarintFrom_cut (more : Nat) : ∀ i x v (part : Bytes), i + more = 9 →
    part <+: appendVarintFrom more v → part ≠ appendVarintFrom more v →
    readUvarintFrom i x part = (if 0 < i + part.length then .unexpectedEOF else .eof, []) := by
  induction more with
  | zero =>
    intro i x v part last isPrefix proper
    rw [appendVarintFrom] at isPrefix proper
    cases part with
    | nil => simp [readUvarintFrom]
    | cons b part =>
      rw [List.cons_prefix_cons, List.prefix_nil] at isPrefix
      obtain ⟨rfl, rfl⟩ := isPrefix
      exact absurd rfl proper
  | succ more ih =>
    intro i x v part sum isPrefix proper
    cases part with
    | nil => simp [readUvarintFrom]
    | cons b part =>
      rw [appendVarintFrom] at isPrefix proper
      split at isPrefix
      · rename_i single
        rw [if_pos single] at proper
        rw [List.cons_prefix_cons, List.prefix_nil] at isPrefix
        obtain ⟨rfl, rfl⟩ := isPrefix
        exact absurd rfl proper
      · rename_i several
        rw [if_neg several] at proper
        rw [List.cons_prefix_cons] at isPrefix
        obtain ⟨rfl, within⟩ := isPrefix
        have byte : (UInt8.ofNat (v % 0x80 + 0x80)).toNat = v % 0x80 + 0x80 :=
          toNat_ofNat_lt (by omega)
        rw [readUvarintFrom, byte, if_neg (by omega), if_neg (by omega),
          ih (i + 1) _ _ part (by omega) within (by rintro rfl; exact proper rfl)]
        simp only [List.length_cons]
        rw [if_pos (by omega), if_pos (by omega)]

variable {S : Schema} {d : Decoder}

def Decoder.Admits (d : Decoder) (body : Bytes) : Prop := body.length ≤ asUnsigned 64 d.max

theorem Decoder.Admits.addressable (admits : d.Admits body) :
    body.length < 2 ^ 64 := Nat.lt_of_le_of_lt admits (asUnsigned_lt 64 d.max)

theorem readFrame_sticky {msg : Bytes} (failed : d.err = some msg) :
    readFrame d = (.error msg, d) := by
  rw [readFrame, failed]

theorem readFrame_whole {rest : Bytes} (working : d.err = none) (admits : d.Admits body)
    (stream : d.r = writeFrame body ++ rest) : readFrame d = (.ok body, { d with r := rest }) := by
  have limit : ¬ asUnsigned 64 d.max < body.length := Nat.not_lt.mpr admits
  rw [readFrame, working, stream, writeFrame, List.append_assoc,
    readUvarint_append admits.addressable]
  simp [limit]

theorem readFrame_end (working : d.err = none) (stream : d.r = []) :
    readFrame d = (.error eof, d) := by
  obtain ⟨r, max, err⟩ := d
  cases working
  cases stream
  rfl

theorem readFrame_cut (working : d.err = none) (admits : d.Admits body)
    (isPrefix : d.r <+: writeFrame body) (proper : d.r ≠ writeFrame body) (some_ : d.r ≠ []) :
    readFrame d = (.error unexpectedEOF, { d with r := [], err := some unexpectedEOF }) := by
  have limit : ¬ asUnsigned 64 d.max < body.length := Nat.not_lt.mpr admits
  rw [writeFrame] at isPrefix proper
  by_cases whole : appendVarint body.length <+: d.r
  · obtain ⟨part, stream⟩ := whole
    have length : part.length < body.length := by
      rw [← stream, List.prefix_append_right_inj] at isPrefix
      apply Nat.lt_of_le_of_ne isPrefix.length_le
      intro same
      rw [← stream, isPrefix.eq_of_length same] at proper
      exact proper rfl
    rw [readFrame, working, ← stream, readUvarint_append admits.addressable]
    simp [limit, length, Decoder.fail]
  · have inside : d.r <+: appendVarint body.length :=
      (List.prefix_or_prefix_of_prefix isPrefix (List.prefix_append _ _)).resolve_right whole
    have cut := readUvarintFrom_cut 9 0 0 body.length d.r rfl inside
      (by rintro same; exact whole (same ▸ List.prefix_refl _))
    rw [Nat.zero_add, if_pos (List.length_pos_iff.mpr some_), ← readUvarint] at cut
    rw [readFrame, working, cut]
    rfl

def framing (max : Int) : Framing Decoder Bytes UInt8 where
  write := writeFrame
  read := readFrame
  Holds d left := d.err = none ∧ d.max = max ∧ d.r = left
  Admits body := body.length ≤ asUnsigned 64 max
  ended := eof
  cut := unexpectedEOF
  read_whole := by
    rintro d body rest ⟨working, rfl, stream⟩ admits
    exact ⟨_, readFrame_whole working admits stream, working, rfl, rfl⟩
  read_ended := by
    rintro d ⟨working, -, stream⟩
    exact readFrame_end working stream
  read_cut := by
    rintro d body left ⟨working, rfl, rfl⟩ admits isPrefix proper some_
    exact ⟨_, readFrame_cut working admits isPrefix proper some_, readFrame_sticky rfl⟩

theorem decodeEach_eq_calls (S : Schema) (opts : UnmarshalOptions) (max : Int)
    (targets : List (Nat × Value)) : ∀ d : Decoder,
    decodeEach S opts d targets =
      (framing max).calls (fun target body => unmarshal S target.1 body target.2 opts) d targets := by
  induction targets with
  | nil => intro d; rfl
  | cons target targets ih =>
    intro d
    rw [decodeEach, Framing.calls, ih, decode]
    change _ = (readFrame d).1.bind _ :: Framing.calls _ _ (readFrame d).2 _
    rcases readFrame d with ⟨_ | _, _⟩ <;> rfl

theorem decodeEach_frames (S : Schema) (opts : UnmarshalOptions) (bodies : List Bytes)
    (d : Decoder) (targets : List (Nat × Value)) (working : d.err = none)
    (admits : ∀ body ∈ bodies, d.Admits body) (isPrefix : d.r <+: bodies.flatMap writeFrame) :
    decodeEach S opts d targets =
      List.zipWith (fun body target => unmarshal S target.1 body target.2 opts)
          (bodies.take (wholeOf writeFrame bodies d.r.length)) targets ++
        (targets.drop (wholeOf writeFrame bodies d.r.length)).map fun _ =>
          .error ((framing d.max).ending bodies d.r.length) := by
  have session := (framing d.max).calls_eq
    (fun target body => unmarshal S target.1 body target.2 opts) bodies targets
    ⟨working, rfl, rfl⟩ admits isPrefix
  rw [decodeEach_eq_calls S opts d.max, session]
  rfl

def Bodies (S : Schema) (opts : MarshalOptions) (messages : List (Nat × Value))
    (bodies : List Bytes) : Prop :=
  messages.map (fun message => marshal S message.1 message.2 opts) = bodies.map .ok

theorem foldlM_encode :
    ∀ {written stream : Bytes}, messages.foldlM (encode S opts) written = .ok stream →
      ∃ bodies, Bodies S opts messages bodies ∧ stream = written ++ bodies.flatMap writeFrame := by
  induction messages with
  | nil =>
    intro written stream encoded
    cases encoded
    exact ⟨[], rfl, by simp⟩
  | cons message messages ih =>
    intro written stream encoded
    rw [List.foldlM_cons, encode] at encoded
    split at encoded
    · cases encoded
    · rename_i body marshalled
      obtain ⟨bodies, each, rfl⟩ := ih encoded
      refine ⟨body :: bodies, ?_, by simp⟩
      rw [Bodies, List.map_cons, marshalled, each, List.map_cons]

theorem Bodies.mem {bodies : List Bytes} (each : Bodies S opts messages bodies)
    (found : body ∈ bodies) :
    ∃ message ∈ messages, marshal S message.1 message.2 opts = .ok body := by
  have mapped : Except.ok body ∈ messages.map fun message => marshal S message.1 message.2 opts := by
    rw [each]
    exact List.mem_map_of_mem found
  exact List.mem_map.mp mapped

theorem Bodies.at {bodies : List Bytes} (each : Bodies S opts messages bodies) {i : Nat}
    {message : Nat × Value} (found : messages[i]? = some message) :
    ∃ body, bodies[i]? = some body ∧ marshal S message.1 message.2 opts = .ok body := by
  have mapped := congrArg (·[i]?) each
  simp only [List.getElem?_map, found, Option.map_some] at mapped
  obtain ⟨body, bodyAt, same⟩ := Option.map_eq_some_iff.mp mapped.symm
  exact ⟨body, bodyAt, same.symm⟩

/-- A stream of messages within the frame limit, cut anywhere. The calls unmarshal the bodies of
the frames that are whole, in order and whatever struct they go to; every later call reports the
end, an unexpected one where the cut is inside a frame. So a message that comes back from its
bytes is what its call gives. -/
theorem decodeEach_cut {opts : MarshalOptions} {opts' : UnmarshalOptions}
    {messages : List (Nat × Value)} {stream : Bytes}
    (encoded : encodeAll S opts messages = .ok stream) {max : Int}
    (limit : ∀ message ∈ messages, ∀ body, marshal S message.1 message.2 opts = .ok body →
      body.length ≤ asUnsigned 64 max)
    {cut : Bytes} (isPrefix : cut <+: stream) (targets : List (Nat × Value)) :
    ∃ bodies, Bodies S opts messages bodies ∧ stream = bodies.flatMap writeFrame ∧
      decodeEach S opts' { r := cut, max } targets =
        List.zipWith (fun body target => unmarshal S target.1 body target.2 opts')
            (bodies.take (wholeOf writeFrame bodies cut.length)) targets ++
          (targets.drop (wholeOf writeFrame bodies cut.length)).map (fun _ =>
            .error ((framing max).ending bodies cut.length)) ∧
      (S.Numbered → (resolveLimits opts').Standard →
        (resolveLimits opts').maxDepth = resolve opts.maxNestingDepth maxNestingDepth →
        ∀ (i : Nat) (message : Nat × Value), i < wholeOf writeFrame bodies cut.length →
          messages[i]? = some message → targets[i]? = some (message.1, S.fresh message.1) →
          FitsElement S (resolveLimits opts').maxRepeated (.struct message.1) message.2 →
          (∀ body, marshal S message.1 message.2 opts = .ok body →
            body.length ≤ (resolveLimits opts').maxMessageSize) →
          (decodeEach S opts' { r := cut, max } targets)[i]? = some (.ok (message.2.normal true))) := by
  obtain ⟨bodies, each, rfl⟩ := foldlM_encode encoded
  have session := decodeEach_frames S opts' bodies { r := cut, max } targets rfl (fun body found => by
    obtain ⟨message, member, marshalled⟩ := each.mem found
    exact limit message member body marshalled) isPrefix
  refine ⟨bodies, each, rfl, session, ?_⟩
  intro numbered standard depth i message whole messageAt targetAt fits size
  obtain ⟨body, bodyAt, marshalled⟩ := each.at messageAt
  have read := unmarshalWithin_marshal numbered standard depth fits marshalled
    (size body marshalled) (resolveLimits_addressable opts')
  have early : (List.zipWith (fun body target => unmarshal S target.1 body target.2 opts')
      (bodies.take (wholeOf writeFrame bodies cut.length)) targets)[i]? =
        some (.ok (message.2.normal true)) := by
    rw [List.getElem?_zipWith, List.getElem?_take_of_lt whole, bodyAt, targetAt]
    exact congrArg some read
  rw [session, List.getElem?_append_left]
  · exact early
  · exact (List.getElem?_eq_some_iff.mp early).1

theorem decodeEach_cut_ledger : ∃ bodies,
    Bodies ledger {} [(0, .struct [.atom (.int 1), .atom (.double 0), .unset]),
      (0, .struct [.atom (.int 2), .atom (.double 0), .unset])] bodies ∧
    [0x02, 0x08, 0x02, 0x02, 0x08, 0x04] = bodies.flatMap writeFrame ∧
    decodeEach ledger {} { r := [0x02, 0x08, 0x02, 0x02, 0x08], max := 16 }
        [(0, ledger.fresh 0), (0, ledger.fresh 0), (0, ledger.fresh 0)] =
      [.ok (.struct [.atom (.int 1), .atom (.double 0), .unset]), .error unexpectedEOF,
        .error unexpectedEOF] := by
  have encoded : encodeAll ledger {} [(0, .struct [.atom (.int 1), .atom (.double 0), .unset]),
      (0, .struct [.atom (.int 2), .atom (.double 0), .unset])] =
        .ok [0x02, 0x08, 0x02, 0x02, 0x08, 0x04] := rfl
  have limit : ∀ message ∈ [(0, Value.struct [.atom (.int 1), .atom (.double 0), .unset]),
      (0, .struct [.atom (.int 2), .atom (.double 0), .unset])], ∀ body,
      marshal ledger message.1 message.2 {} = .ok body → body.length ≤ asUnsigned 64 16 := by
    intro message found body marshalled
    simp only [List.mem_cons, List.not_mem_nil, or_false] at found
    obtain rfl | rfl := found <;> cases marshalled <;> decide
  obtain ⟨bodies, each, stream, _⟩ := @decodeEach_cut ledger {} {} _ _ encoded 16 limit
    [0x02, 0x08, 0x02, 0x02, 0x08] (by decide)
    [(0, ledger.fresh 0), (0, ledger.fresh 0), (0, ledger.fresh 0)]
  exact ⟨bodies, each, stream, rfl⟩

end Protowire.Pb.Native
