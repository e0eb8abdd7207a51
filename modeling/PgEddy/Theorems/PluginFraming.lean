import Mathlib.Data.List.Forall2
import PgEddy.Theorems.ChangeStream
import PgEddy.WalDecode

/-!
# Every transaction is framed

What the output plugin streams for a sequence of transactions is, for each one with a message of this program, the frame that
begins it, a frame for each mutation and the frame that commits it. A message of this program that does not decode ends the
decoding with an error, and what has been streamed by then is the beginning of that.
-/

namespace PgEddy

open Recorded Utf8 StreamAux

/-- The message is transactional and has the prefix of the plugin. -/
def LogicalMessage.isOwn (m : LogicalMessage) : Bool :=
  m.transactional && m.messagePrefix == some (utf8Bytes logicalMessagePrefix)

/-- The message decodes to a mutation whose frame can be written. -/
def LogicalMessage.Readable (serde : SerdeJson) (m : LogicalMessage) : Prop :=
  ∃ mutation, decodeLogicalMessage serde m.payload = .ok mutation ∧
    ∃ bs, encodeFrame serde (.mutation m.messageLsn mutation) = .ok bs

/-- The frame of the mutation that a message of the plugin's prefix carries, with the LSN of the message. -/
def LogicalMessage.frame? (serde : SerdeJson) (m : LogicalMessage) : Option Frame :=
  if m.isOwn then
    match decodeLogicalMessage serde m.payload with
    | .ok mutation => some (.mutation m.messageLsn mutation)
    | .error _ => none
  else none

/-- What a transaction is to look like in the stream: its mutations between one `Begin` and one `Commit`, or nothing when no
message has the plugin's prefix. -/
def DecodedTransaction.frames (serde : SerdeJson) (txn : DecodedTransaction) : List Frame :=
  if txn.messages.any LogicalMessage.isOwn then
    .begin txn.xid :: txn.messages.filterMap (LogicalMessage.frame? serde) ++ [.commit txn.xid txn.commitLsn txn.endLsn]
  else []

/-- Every message of the plugin's prefix can be read. -/
def DecodedTransaction.Readable (serde : SerdeJson) (txn : DecodedTransaction) : Prop :=
  ∀ m ∈ txn.messages, m.isOwn = true → m.Readable serde

/-- The bytes of frames, one after another. -/
def Encodes (serde : SerdeJson) (out : List (List UInt8)) (frames : List Frame) : Prop :=
  List.Forall₂ (fun bs f => encodeFrame serde f = .ok bs) out frames

namespace FramingAux

variable {serde : SerdeJson}

/-- A run hands frames to the stream: all of `frames` when `good` holds, and then it ends well; otherwise it ends in an error
and the stream has the first of them. -/
def Emitted (serde : SerdeJson) (x : Callback) (w : Bool × List (List UInt8)) (frames : List Frame) (good : Prop) : Prop :=
  ∃ out sent, (x w).2.2 = w.2 ++ out ∧ Encodes serde out sent ∧ sent <+: frames ∧ ((x w).1 = .ok () ↔ good) ∧
    (good → sent = frames)

namespace Emitted

variable {x y : Callback} {w : Bool × List (List UInt8)} {frames more : List Frame} {good good' : Prop}

theorem congr (h : Emitted serde x w frames good) (hgood : good ↔ good') : Emitted serde x w frames good' := by
  obtain ⟨out, sent, htrace, henc, hpre, hok, hall⟩ := h
  exact ⟨out, sent, htrace, henc, hpre, hok.trans hgood, fun hg => hall (hgood.mpr hg)⟩

/-- Nothing is handed over. -/
theorem nothing (h : (x w).1 = .ok () ∧ (x w).2.2 = w.2) : Emitted serde x w [] True :=
  ⟨[], [], by rw [h.2, List.append_nil], .nil, List.prefix_refl _, ⟨fun _ => trivial, fun _ => h.1⟩, fun _ => rfl⟩

/-- The run stops before it hands over anything. -/
theorem stopped {e : String} (h : x w = (.error e, w)) : Emitted serde x w frames False := by
  refine ⟨[], [], by rw [h, List.append_nil], .nil, List.nil_prefix, ⟨fun hc => ?_, False.elim⟩, False.elim⟩
  rw [h] at hc
  cases hc

/-- One run after another. -/
theorem bind (hx : Emitted serde x w frames good)
    (hy : ∀ w', x w = (.ok (), w') → Emitted serde y w' more good') :
    Emitted serde (x >>= fun _ => y) w (frames ++ more) (good ∧ good') := by
  obtain ⟨out, sent, htrace, henc, hpre, hok, hall⟩ := hx
  rcases hres : x w with ⟨e | u, w'⟩
  · rw [hres] at htrace hok
    have hbad : ¬good := fun hg => by cases hok.mpr hg
    refine ⟨out, sent, ?_, henc, hpre.trans (List.prefix_append _ _), ?_, fun hg => absurd hg.1 hbad⟩
    · rw [bind_error hres]
      exact htrace
    · rw [bind_error hres]
      exact ⟨nofun, fun hg => absurd hg.1 hbad⟩
  · obtain ⟨out', sent', htrace', henc', hpre', hok', hall'⟩ := hy w' hres
    rw [hres] at htrace hok
    have hg : good := hok.mp rfl
    cases hall hg
    refine ⟨out ++ out', frames ++ sent', ?_, List.rel_append henc henc', ?_, ?_, ?_⟩
    · rw [bind_ok hres, htrace', ← List.append_assoc]
      exact congrArg (· ++ out') htrace
    · exact (List.prefix_append_right_inj frames).mpr hpre'
    · rw [bind_ok hres, hok']
      exact ⟨fun hg' => ⟨hg, hg'⟩, fun hg' => hg'.2⟩
    · intro hg'
      rw [hall' hg'.2]

end Emitted

/-! ## One frame -/

theorem length_encodeFrame {f : Frame} {bs : List UInt8} (h : encodeFrame serde f = .ok bs) :
    bs.length ≤ headerLen + maxFramePayloadBytes := by
  obtain ⟨kind, payload, -, hmax, rfl⟩ := FrameAux.encodeFrame_ok h
  rw [List.length_append, FrameAux.length_frameHeader]
  omega

theorem writeFrame_eq {f : Frame} {bs : List UInt8} (h : encodeFrame serde f = .ok bs) (w : Bool × List (List UInt8)) :
    writeFrame serde f w = (.ok (), (w.1, w.2 ++ [bs])) := by
  have hlen : ¬bs.length > 2 ^ 31 - 1 := by
    have hmax := length_encodeFrame h
    simp only [headerLen, maxFramePayloadBytes] at hmax
    omega
  simp only [writeFrame, h, if_neg hlen]
  rfl

theorem emitted_writeFrame (f : Frame) (w : Bool × List (List UInt8)) :
    Emitted serde (writeFrame serde f) w [f] (∃ bs, encodeFrame serde f = .ok bs) := by
  cases h : encodeFrame serde f with
  | error e =>
    refine (Emitted.stopped (e := s!"pg_eddy output plugin encode failed: {e.text}") ?_).congr ⟨False.elim, ?_⟩
    · simp only [writeFrame, h]
      rfl
    · rintro ⟨bs, hbs⟩
      cases hbs
  | ok bs =>
    refine ⟨[bs], [f], ?_, .cons h .nil, List.prefix_refl _, ?_, fun _ => rfl⟩
    · rw [writeFrame_eq h]
    · rw [writeFrame_eq h]
      exact ⟨fun _ => ⟨bs, rfl⟩, fun _ => rfl⟩

/-- The frames that begin and end a transaction are always accepted. -/
theorem encodeFrame_begin (serde : SerdeJson) (xid : UInt32) : ∃ bs, encodeFrame serde (.begin xid) = .ok bs := by
  refine ⟨_, FrameAux.encodeFrame_eq rfl ?_⟩
  rw [writeU32, ByteBuffer.length_beBytes]
  decide

theorem encodeFrame_commit (serde : SerdeJson) (xid : UInt32) (commitLsn endLsn : UInt64) :
    ∃ bs, encodeFrame serde (.commit xid commitLsn endLsn) = .ok bs := by
  refine ⟨_, FrameAux.encodeFrame_eq rfl ?_⟩
  simp only [writeU32, writeU64, List.length_append, ByteBuffer.length_beBytes]
  decide

/-! ## The callbacks -/

variable {txn : DecodedTransaction}

/-- What the first message of the plugin's prefix is preceded by. -/
def beginFrames (txn : DecodedTransaction) (marked : Bool) : List Frame := if marked then [] else [.begin txn.xid]

/-- A message that is not of this program is passed over. -/
theorem messageCallback_foreign {m : LogicalMessage} (h : m.isOwn = false) (w : Bool × List (List UInt8)) :
    messageCallback serde txn m w = (.ok (), w) := by
  have hskip : m.transactional = false ∨ m.messagePrefix ≠ some (utf8Bytes logicalMessagePrefix) := by
    simpa [LogicalMessage.isOwn, imp_iff_not_or] using h
  simp only [messageCallback, if_pos hskip]
  rfl

/-- The frame that begins the transaction, streamed before the first message of this program. -/
def beginOnce (serde : SerdeJson) (txn : DecodedTransaction) (marked : Bool) : Callback :=
  if marked then pure () else writeFrame serde (.begin txn.xid) >>= fun _ => set true

/-- A message of this program is decoded, and streamed after the frame that begins the transaction if it is the first. -/
theorem messageCallback_own {m : LogicalMessage} (h : m.isOwn = true) (w : Bool × List (List UInt8)) :
    messageCallback serde txn m w =
      match decodeLogicalMessage serde m.payload with
      | .error error => (.error s!"pg_eddy output plugin decode failed: {error.text}", w)
      | .ok mutation => (beginOnce serde txn w.1 >>= fun _ => writeFrame serde (.mutation m.messageLsn mutation)) w := by
  have hkeep : ¬(m.transactional = false ∨ m.messagePrefix ≠ some (utf8Bytes logicalMessagePrefix)) := by
    simpa [LogicalMessage.isOwn] using h
  simp only [messageCallback, if_neg hkeep]
  cases decodeLogicalMessage serde m.payload with
  | error e => rfl
  | ok mutation =>
    obtain ⟨marked, trace⟩ := w
    cases marked with
    | true => rfl
    | false =>
      simp only [beginOnce, Bool.false_eq_true, if_false, bind_assoc]
      rfl

theorem emitted_beginOnce (w : Bool × List (List UInt8)) :
    Emitted serde (beginOnce serde txn w.1) w (beginFrames txn w.1) True ∧
      ∀ w', beginOnce serde txn w.1 w = (.ok (), w') → w'.1 = true := by
  obtain ⟨marked, trace⟩ := w
  obtain ⟨bs, hbs⟩ := encodeFrame_begin serde txn.xid
  cases marked with
  | true =>
    refine ⟨Emitted.nothing ⟨rfl, rfl⟩, fun w' h => ?_⟩
    cases h
    rfl
  | false =>
    constructor
    · have hset : ∀ w', Emitted serde (set true) w' [] True := fun w' => Emitted.nothing ⟨rfl, rfl⟩
      refine ((emitted_writeFrame (.begin txn.xid) (false, trace)).bind fun w' _ => hset w').congr ?_
      exact ⟨fun _ => trivial, fun _ => ⟨⟨bs, hbs⟩, trivial⟩⟩
    · intro w' h
      obtain ⟨_, w₁, _, hset⟩ := bind_eq_ok h
      cases hset
      rfl

/-- One message. -/
theorem emitted_messageCallback (m : LogicalMessage) (w : Bool × List (List UInt8)) :
    Emitted serde (messageCallback serde txn m) w
      (if m.isOwn then beginFrames txn w.1 ++ (m.frame? serde).toList else []) (m.isOwn = true → m.Readable serde) := by
  cases hown : m.isOwn with
  | false =>
    have h : messageCallback serde txn m w = (.ok (), w) := messageCallback_foreign hown w
    exact (Emitted.nothing ⟨by rw [h], by rw [h]⟩).congr ⟨fun _ => nofun, fun _ => trivial⟩
  | true =>
    have h := @messageCallback_own serde txn m hown w
    cases hdec : decodeLogicalMessage serde m.payload with
    | error e =>
      rw [hdec] at h
      refine (Emitted.stopped h).congr ⟨False.elim, fun hr => ?_⟩
      obtain ⟨mutation, hm, -⟩ := hr rfl
      rw [hdec] at hm
      cases hm
    | ok mutation =>
      simp only [hdec] at h
      have hframe : m.frame? serde = some (.mutation m.messageLsn mutation) := by
        simp only [LogicalMessage.frame?, hown, if_true, hdec]
      have hrun := ((@emitted_beginOnce serde txn w).1).bind
        fun w' _ => emitted_writeFrame (.mutation m.messageLsn mutation) w'
      obtain ⟨out, sent, htrace, henc, hpre, hok, hall⟩ := hrun
      rw [← h] at htrace hok
      rw [if_pos rfl, hframe]
      refine Emitted.congr ⟨out, sent, htrace, henc, hpre, hok, hall⟩ ⟨fun hg _ => ?_, fun hr => ⟨trivial, ?_⟩⟩
      · exact ⟨mutation, hdec, hg.2⟩
      · obtain ⟨mutation', hm, hbs⟩ := hr rfl
        cases hdec.symm.trans hm
        exact hbs

/-- A message leaves the mark, and sets it when it is one of this program. -/
theorem mark_messageCallback {m : LogicalMessage} {w w' : Bool × List (List UInt8)}
    (h : messageCallback serde txn m w = (.ok (), w')) : w'.1 = (w.1 || m.isOwn) := by
  cases hown : m.isOwn with
  | false =>
    rw [messageCallback_foreign hown] at h
    cases h
    rw [Bool.or_false]
  | true =>
    rw [messageCallback_own hown] at h
    cases hdec : decodeLogicalMessage serde m.payload with
    | error e => rw [hdec] at h; cases h
    | ok mutation =>
      rw [hdec] at h
      obtain ⟨_, w₁, hbegin, hwrite⟩ := bind_eq_ok h
      have hmark := (emitted_beginOnce w).2 w₁ hbegin
      rw [Bool.or_true, ← hmark]
      cases henc : encodeFrame serde (.mutation m.messageLsn mutation) with
      | error e =>
        simp only [writeFrame, henc] at hwrite
        cases hwrite
      | ok bs =>
        rw [writeFrame_eq henc] at hwrite
        cases hwrite
        rfl

/-- What messages stream for a transaction whose mark is set or not. -/
def messageFrames (serde : SerdeJson) (txn : DecodedTransaction) (marked : Bool) (ms : List LogicalMessage) : List Frame :=
  (if ms.any LogicalMessage.isOwn then beginFrames txn marked else []) ++ ms.filterMap (LogicalMessage.frame? serde)

theorem messageFrames_cons (marked : Bool) (m : LogicalMessage) (ms : List LogicalMessage) :
    messageFrames serde txn marked (m :: ms) =
      (if m.isOwn then beginFrames txn marked ++ (m.frame? serde).toList else []) ++
        messageFrames serde txn (marked || m.isOwn) ms := by
  have hcons : (m :: ms).filterMap (LogicalMessage.frame? serde) =
      (m.frame? serde).toList ++ ms.filterMap (LogicalMessage.frame? serde) := by
    rw [List.filterMap_cons]
    cases m.frame? serde <;> rfl
  cases hown : m.isOwn with
  | false =>
    have hnone : m.frame? serde = none := by simp only [LogicalMessage.frame?, hown, Bool.false_eq_true, if_false]
    simp only [messageFrames, List.any_cons, hown, hcons, hnone, Bool.false_or, Bool.or_false, Bool.false_eq_true, if_false,
      Option.toList_none, List.nil_append]
  | true =>
    have hdone : (if ms.any LogicalMessage.isOwn then beginFrames txn true else []) = [] := by
      split <;> rfl
    simp only [messageFrames, List.any_cons, hown, hcons, Bool.true_or, Bool.or_true, if_true, hdone, List.nil_append,
      List.append_assoc]

/-- The messages of a transaction, one after another. -/
theorem emitted_messages (ms : List LogicalMessage) :
    ∀ w : Bool × List (List UInt8), Emitted serde (ms.forM (messageCallback serde txn)) w (messageFrames serde txn w.1 ms)
      (∀ m ∈ ms, m.isOwn = true → m.Readable serde) ∧
      ∀ w', ms.forM (messageCallback serde txn) w = (.ok (), w') → w'.1 = (w.1 || ms.any LogicalMessage.isOwn) := by
  induction ms with
  | nil =>
    intro w
    refine ⟨(Emitted.nothing ⟨rfl, rfl⟩).congr ⟨fun _ => List.forall_mem_nil _, fun _ => trivial⟩, fun w' h => ?_⟩
    cases h
    simp
  | cons m ms ih =>
    intro w
    constructor
    · rw [messageFrames_cons]
      have hrest : ∀ w', messageCallback serde txn m w = (.ok (), w') → Emitted serde (ms.forM (messageCallback serde txn)) w'
          (messageFrames serde txn (w.1 || m.isOwn) ms) (∀ m ∈ ms, m.isOwn = true → m.Readable serde) := by
        intro w' hw'
        rw [← mark_messageCallback hw']
        exact (ih w').1
      refine ((emitted_messageCallback m w).bind hrest).congr ?_
      exact ⟨fun h => List.forall_mem_cons.mpr h, fun h => List.forall_mem_cons.mp h⟩
    · intro w' h
      obtain ⟨_, w₁, hm, hms⟩ := bind_eq_ok h
      rw [(ih w₁).2 w' hms, mark_messageCallback hm, List.any_cons, Bool.or_assoc]

/-- The callbacks for one transaction, whatever `output_plugin_private` held before. -/
theorem emitted_decodeTransaction (w : Bool × List (List UInt8)) :
    Emitted serde (decodeTransaction serde txn) w (txn.frames serde) (txn.Readable serde) := by
  have hcommit : ∀ w', txn.messages.forM (messageCallback serde txn) (false, w.2) = (.ok (), w') →
      Emitted serde (commitCallback serde txn) w'
        (if txn.messages.any LogicalMessage.isOwn then [.commit txn.xid txn.commitLsn txn.endLsn] else []) True := by
    intro w' hw'
    have hmark := (emitted_messages txn.messages (false, w.2)).2 w' hw'
    rw [Bool.false_or] at hmark
    rw [← hmark]
    obtain ⟨marked, trace⟩ := w'
    cases marked with
    | false => exact Emitted.nothing ⟨rfl, rfl⟩
    | true =>
      refine (emitted_writeFrame (.commit txn.xid txn.commitLsn txn.endLsn) (true, trace)).congr ?_
      exact ⟨fun _ => trivial, fun _ => encodeFrame_commit serde txn.xid txn.commitLsn txn.endLsn⟩
  have hrun := ((@emitted_messages serde txn txn.messages (false, w.2)).1).bind hcommit
  have hframes : messageFrames serde txn false txn.messages ++
      (if txn.messages.any LogicalMessage.isOwn then [.commit txn.xid txn.commitLsn txn.endLsn] else []) =
        txn.frames serde := by
    simp only [messageFrames, DecodedTransaction.frames, beginFrames]
    split
    · rfl
    · next hnone =>
      have hnil : txn.messages.filterMap (LogicalMessage.frame? serde) = [] := by
        refine List.filterMap_eq_nil_iff.mpr fun m hm => ?_
        have hforeign : m.isOwn = false := by
          have := List.any_eq_false.mp (Bool.eq_false_iff.mpr hnone) m hm
          simpa using this
        simp only [LogicalMessage.frame?, hforeign, Bool.false_eq_true, if_false]
      rw [hnil]
      rfl
  rw [hframes] at hrun
  exact hrun.congr ⟨fun h => h.1, fun h => ⟨h, trivial⟩⟩

theorem emitted_decodeTransactions (txns : List DecodedTransaction) :
    ∀ w : Bool × List (List UInt8), Emitted serde (decodeTransactions serde txns) w
      (txns.flatMap (DecodedTransaction.frames serde)) (∀ txn ∈ txns, txn.Readable serde) := by
  induction txns with
  | nil => exact fun w => (Emitted.nothing ⟨rfl, rfl⟩).congr ⟨fun _ => List.forall_mem_nil _, fun _ => trivial⟩
  | cons txn txns ih =>
    intro w
    refine ((emitted_decodeTransaction w).bind fun w' _ => ih w').congr ?_
    exact ⟨fun h => List.forall_mem_cons.mpr h, fun h => List.forall_mem_cons.mp h⟩

end FramingAux

open FramingAux

/-- A message that the program has logged can be read by the plugin. -/
theorem readable_of_emit {serde : SerdeJson} (hserde : serde.RoundTrips) {mutation : Mutation} {m : LogicalMessage}
    (h : emit serde mutation = .ok m.payload) : m.Readable serde := by
  have hlogged : encodeLogicalMessage serde mutation = .ok m.payload := by
    unfold emit at h
    cases henc : encodeLogicalMessage serde mutation with
    | error e => rw [henc] at h; cases h
    | ok bs => rw [henc] at h; cases h; rfl
  exact ⟨mutation, decodeLogicalMessage_encodeLogicalMessage hserde hlogged, encodeFrame_any_lsn hlogged m.messageLsn⟩

/-- For every sequence of decoded transactions and whatever the plugin's private pointer held before: the stream is the encoding
of frames, and these are, transaction by transaction, one `Begin`, the mutations of its messages in order with their own LSNs,
and one `Commit` of the same transaction, or nothing when it has no message of the plugin's prefix. That is so if and only if
every message of the prefix can be read; otherwise the decoding ends in an error and the stream has the first of these
frames. -/
theorem output_plugin_framing (serde : SerdeJson) (txns : List DecodedTransaction) (marked : Bool) :
    ∃ frames, Encodes serde (run (decodeTransactions serde txns) marked).2.2 frames ∧
      frames <+: txns.flatMap (DecodedTransaction.frames serde) ∧
      ((run (decodeTransactions serde txns) marked).1 = .ok () ↔ ∀ txn ∈ txns, txn.Readable serde) ∧
      ((∀ txn ∈ txns, txn.Readable serde) → frames = txns.flatMap (DecodedTransaction.frames serde)) := by
  obtain ⟨out, sent, htrace, henc, hpre, hok, hall⟩ := @emitted_decodeTransactions serde txns (marked, [])
  rw [List.nil_append] at htrace
  exact ⟨sent, htrace ▸ henc, hpre, hok, hall⟩

/-- A transaction that creates a node and then logs a message of the plugin's prefix without any bytes. -/
def brokenTransaction : DecodedTransaction :=
  let own (lsn : UInt64) (payload : List UInt8) : LogicalMessage :=
    { messageLsn := lsn, transactional := true, messagePrefix := some (utf8Bytes logicalMessagePrefix), payload := payload }
  { xid := 9, commitLsn := 100, endLsn := 120
    messages := [own 77 ([0x50, 0x45, 0x44, 0x59, 0, 1, 0x10, 0, 0, 0, 0, 34] ++ List.replicate 15 0 ++ [7, 0, 1, 0, 0, 0, 6] ++
      [0x50, 0x65, 0x72, 0x73, 0x6f, 0x6e] ++ [0, 0, 0, 2, 0x7b, 0x7d]), own 88 []] }

/-- The stream has the `Begin` and the node of `brokenTransaction` but no `Commit`. -/
theorem broken_transaction_not_framed :
    ¬∀ txns : List DecodedTransaction, Encodes emptyMapJson (run (decodeTransactions emptyMapJson txns) false).2.2
      (txns.flatMap (DecodedTransaction.frames emptyMapJson)) := by
  intro h
  have hlength := (h [brokenTransaction]).length_eq
  revert hlength
  decide +kernel

end PgEddy
